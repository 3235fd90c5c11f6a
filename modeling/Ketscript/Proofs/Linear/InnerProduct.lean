import Ketscript.Proofs.Eigenpairs
import Mathlib.Algebra.Order.BigOperators.Ring.Finset

/-! The inner product of kets in exact arithmetic. What the loop adds up is conjugate-linear in the first ket and linear
    in the second one, and it is conjugated if the two are exchanged. By the inequality of Cauchy and Schwarz its squared
    modulus is at most the product of the squared norms. -/

namespace Ketscript.Ket
open Finset
variable {v w : Ket ℂ}

theorem inner?_eq_dot (h : v.size = w.size) : inner? v w = .ok (dot v w) := by
  have hproduct (i : Nat) (hi : i < v.size) :
      (Array.zipWith (fun x y : ℂ => star x * y) v w).getD i 0 = star (v.getD i 0) * w.getD i 0 := by
    simp only [Array.getD_eq_getD_getElem?, Array.getElem?_zipWith, Array.getElem?_eq_getElem hi,
      Array.getElem?_eq_getElem (h ▸ hi), Option.getD_some]
  rw [inner?, sameLength, if_pos h]
  refine congrArg Except.ok ?_
  show (Array.zipWith (fun x y : ℂ => star x * y) v w).foldl (fun sum x => sum + id x) 0 = _
  rw [foldl_add_eq_sum id _ 0, zero_add, Array.size_zipWith, ← h, Nat.min_self]
  exact sum_congr rfl fun i hi => hproduct i (mem_range.mp hi)

theorem star_dot (h : v.size = w.size) : star (dot v w) = dot w v := by
  rw [dot, dot, star_sum, h]
  exact sum_congr rfl fun i _ => by rw [star_mul, star_star]

theorem dot_scale_left (v w : Ket ℂ) (x : ℂ) : dot (v.scale x) w = star x * dot v w := by
  rw [dot, dot, size_scale, mul_sum]
  exact sum_congr rfl fun i hi => by rw [getD_scale v x (mem_range.mp hi), star_mul, mul_assoc]

theorem dot_scale_right (h : v.size = w.size) (x : ℂ) : dot v (w.scale x) = x * dot v w := by
  rw [dot, dot, mul_sum]
  exact sum_congr rfl fun i hi => by rw [getD_scale w x (h ▸ mem_range.mp hi), ← mul_assoc, mul_comm]

/-- The inner product with a basis state is an entry. -/
theorem dot_basis {i : Nat} (hi : i < v.size) : dot (basis v.size i) v = v.getD i 0 := by
  rw [dot, size_basis, sum_eq_single i]
  · rw [getD_basis hi, if_pos rfl, star_one, one_mul]
  · intro j hj hne
    rw [getD_basis (mem_range.mp hj), if_neg hne, star_zero, zero_mul]
  · intro hi'
    exact absurd (mem_range.mpr hi) hi'

theorem normSq_eq_sum_sq (v : Ket ℂ) : normSq v = ∑ i ∈ range v.size, ‖v.getD i 0‖ ^ 2 := by
  rw [normSq_eq_sum]
  exact sum_congr rfl fun i _ => Complex.normSq_eq_norm_sq _

theorem normSq_nonneg (v : Ket ℂ) : 0 ≤ (normSq v : ℝ) := by
  rw [normSq_eq_sum_sq]
  exact sum_nonneg fun i _ => sq_nonneg _

theorem norm_sq (v : Ket ℂ) : (norm v : ℝ) ^ 2 = normSq v := Real.sq_sqrt (normSq_nonneg v)

/-- The inequality of Cauchy and Schwarz. -/
theorem normSq_dot_le (h : v.size = w.size) : Complex.normSq (dot v w) ≤ normSq v * normSq w := by
  have hnorm : ‖dot v w‖ ≤ ∑ i ∈ range v.size, ‖v.getD i 0‖ * ‖w.getD i 0‖ := by
    refine (norm_sum_le _ _).trans_eq (sum_congr rfl fun i _ => ?_)
    rw [norm_mul, norm_star]
  calc Complex.normSq (dot v w)
      = ‖dot v w‖ ^ 2 := Complex.normSq_eq_norm_sq _
    _ ≤ (∑ i ∈ range v.size, ‖v.getD i 0‖ * ‖w.getD i 0‖) ^ 2 := pow_le_pow_left₀ (norm_nonneg _) hnorm 2
    _ ≤ (∑ i ∈ range v.size, ‖v.getD i 0‖ ^ 2) * ∑ i ∈ range v.size, ‖w.getD i 0‖ ^ 2 :=
        sum_mul_sq_le_sq_mul_sq _ _ _
    _ = normSq v * normSq w := by rw [normSq_eq_sum_sq v, normSq_eq_sum_sq w, h]

end Ketscript.Ket
