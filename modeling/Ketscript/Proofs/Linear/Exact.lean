import Ketscript.Proofs.Linear.Product
import Mathlib.Analysis.SpecialFunctions.Complex.Arg
import Mathlib.Analysis.SpecialFunctions.Log.Base

/-! Exact arithmetic: the real numbers as real scalars, and the complex numbers as amplitudes.

    Everything that runs on binary64 numbers can be read over these instead. The conjugate, the squared
    modulus and the number of a given modulus and angle are then those of the complex numbers, and the
    squared norm of a ket is the inner product of the ket with itself. -/

namespace Ketscript
open Finset

noncomputable instance : RealScalar ℝ where
  decLt := Real.decidableLT
  decLe := Real.decidableLE
  ofDecimal m k := m / 10 ^ k
  abs x := |x|
  sqrt := Real.sqrt
  hypot x y := Real.sqrt (x ^ 2 + y ^ 2)
  log2 := Real.logb 2
  pi := Real.pi
  cos := Real.cos
  sin := Real.sin
  atan2 y x := Complex.arg ⟨x, y⟩
  hasPlusSign x := decide (0 ≤ x)

/-- Real numbers are divided as in their field. Without this the division of the scalar class may be found first. -/
noncomputable instance instDivReal : Div ℝ := DivInvMonoid.toDiv

instance : Amplitude ℂ ℝ where
  ofParts := Complex.mk
  re := Complex.re
  im := Complex.im

theorem RealScalar.ofNat_eq_cast (n : ℕ) : (ofNat n : ℝ) = n := by
  show (n : ℝ) / 10 ^ 0 = n
  rw [pow_zero, div_one]

/-! ### Amplitudes -/

namespace Amplitude

theorem conj_eq_star (z : ℂ) : conj z = star z := rfl

theorem ofReal_eq (x : ℝ) : (ofReal x : ℂ) = (x : ℂ) := rfl

/-- A phase: the number of modulus one at an angle. -/
theorem ofPolar_one (angle : ℝ) : (ofPolar (RealScalar.ofNat 1) angle : ℂ) = Complex.exp (angle * Complex.I) := by
  rw [RealScalar.ofNat_eq_cast, Nat.cast_one]
  apply Complex.ext
  · show 1 * Real.cos angle = _
    rw [one_mul, Complex.exp_ofReal_mul_I_re]
  · show 1 * Real.sin angle = _
    rw [one_mul, Complex.exp_ofReal_mul_I_im]

end Amplitude

/-! ### Inner products -/

namespace Ket

/-- The inner product, conjugate-linear in the first ket. -/
noncomputable def dot (v w : Ket ℂ) : ℂ := ∑ i ∈ range v.size, star (v.getD i 0) * w.getD i 0

theorem normSq_eq_sum (v : Ket ℂ) : normSq v = ∑ i ∈ range v.size, Complex.normSq (v.getD i 0) := by
  show v.foldl (fun sum z => sum + Complex.normSq z) (-0 : ℝ) = _
  rw [foldl_add_eq_sum _ v 0, neg_zero, zero_add]

theorem ofReal_normSq (v : Ket ℂ) : ((normSq v : ℝ) : ℂ) = dot v v := by
  rw [normSq_eq_sum, dot, Complex.ofReal_sum]
  exact sum_congr rfl fun i _ => by rw [Complex.normSq_eq_conj_mul_self]; rfl

theorem normSq_basis {size index : Nat} (h : index < size) : normSq (basis size index : Ket ℂ) = 1 := by
  have hdot : dot (basis size index) (basis size index) = 1 := by
    rw [dot, size_basis, sum_eq_single index]
    · rw [getD_basis h, if_pos rfl, star_one, one_mul]
    · intro i hi hne
      rw [getD_basis (mem_range.mp hi), if_neg hne, mul_zero]
    · intro hindex
      exact absurd (mem_range.mpr h) hindex
  rw [← ofReal_normSq] at hdot
  exact Complex.ofReal_injective (hdot.trans Complex.ofReal_one.symm)

end Ket
end Ketscript
