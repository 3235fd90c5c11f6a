import Ketscript.Linear.Observable
import Ketscript.Proofs.Linear.InnerProduct

/-! Transitions between kets in exact arithmetic. The amplitude of a transition is an inner product of kets taken at norm
    one, so its squared modulus is a probability, which is one between kets that differ by a factor. The transitions from
    a ket to the basis states are the outcomes of a measurement: their probabilities add up to one, and they are the
    squared moduli of the amplitudes, though the one is divided by the squared norm and the other by the norms. -/

namespace Ketscript.Ket
open Finset
variable {v w : Ket ℂ}

/-- An entry is not zero. -/
def IsNonzero (v : Ket ℂ) : Prop := ∃ z ∈ v, z ≠ 0

theorem IsNonzero.normSq_pos (h : v.IsNonzero) : 0 < (normSq v : ℝ) := by
  obtain ⟨z, hz, hne⟩ := h
  obtain ⟨i, hi, rfl⟩ := Array.mem_iff_getElem.mp hz
  refine Ket.normSq_pos hi ?_
  rwa [Array.getD_eq_getD_getElem?, Array.getElem?_eq_getElem hi, Option.getD_some]

theorem IsNonzero.norm_pos (h : v.IsNonzero) : 0 < (norm v : ℝ) := Real.sqrt_pos.mpr h.normSq_pos

theorem IsNonzero.scale (h : v.IsNonzero) {c : ℂ} (hc : c ≠ 0) : (v.scale c).IsNonzero := by
  obtain ⟨z, hz, hne⟩ := h
  exact ⟨z * c, Array.mem_map_of_mem hz, mul_ne_zero hne hc⟩

theorem isNonzero_basis {size i : Nat} (hi : i < size) : (basis size i : Ket ℂ).IsNonzero := by
  have hsize : i < (basis size i : Ket ℂ).size := (size_basis (K := ℂ) size i).symm ▸ hi
  refine ⟨_, Array.getElem_mem hsize, ?_⟩
  have hone : (basis size i : Ket ℂ).getD i 0 = 1 := (getD_basis hi).trans (if_pos rfl)
  rw [Array.getD_eq_getD_getElem?, Array.getElem?_eq_getElem hsize, Option.getD_some] at hone
  rw [hone]
  exact one_ne_zero

theorem norm_scale (v : Ket ℂ) (c : ℂ) : (norm (v.scale c) : ℝ) = norm v * ‖c‖ := by
  show Real.sqrt _ = Real.sqrt _ * _
  rw [normSq_scale, Complex.normSq_eq_norm_sq, Real.sqrt_mul (normSq_nonneg v), Real.sqrt_sq (norm_nonneg c)]

/-! ### Amplitudes -/

/-- The amplitude of the transition from one ket to another: their inner product at norm one. -/
noncomputable def overlap (v w : Ket ℂ) : ℂ := dot w v / (norm v * norm w : ℝ)

theorem transition?_eq_overlap (hsize : v.size = w.size) (hv : v.IsNonzero) (hw : w.IsNonzero) :
    v.transition? w = .ok (overlap v w) := by
  have hnorms : ((norm v * norm w : ℝ) == 0) = false :=
    beq_eq_false_iff_ne.mpr (mul_pos hv.norm_pos hw.norm_pos).ne'
  rw [transition?, inner?_eq_dot hsize.symm, overlap, ← Amplitude.divReal_eq]
  exact if_neg (hnorms ▸ Bool.false_ne_true)

theorem star_overlap (hsize : v.size = w.size) : star (overlap v w) = overlap w v := by
  rw [overlap, overlap, star_div₀, star_dot hsize.symm, mul_comm (norm v)]
  congr 1
  exact Complex.conj_ofReal _

theorem normSq_overlap (v w : Ket ℂ) :
    Complex.normSq (overlap v w) = Complex.normSq (dot w v) / (normSq v * normSq w) := by
  rw [overlap, Complex.normSq_div, Complex.normSq_ofReal, ← norm_sq v, ← norm_sq w]
  ring

theorem normSq_overlap_le (hsize : v.size = w.size) (hv : v.IsNonzero) (hw : w.IsNonzero) :
    Complex.normSq (overlap v w) ≤ 1 := by
  rw [normSq_overlap, div_le_one (mul_pos hv.normSq_pos hw.normSq_pos), mul_comm]
  exact normSq_dot_le hsize.symm

/-- A factor does not take a ket to another state. -/
theorem normSq_overlap_scale (hv : v.IsNonzero) {c : ℂ} (hc : c ≠ 0) : Complex.normSq (overlap v (v.scale c)) = 1 := by
  have hpos : (normSq v : ℝ) * (normSq v * Complex.normSq c) ≠ 0 :=
    (mul_pos hv.normSq_pos (mul_pos hv.normSq_pos (Complex.normSq_pos.mpr hc))).ne'
  have hstar : Complex.normSq (star c) = Complex.normSq c := Complex.normSq_conj c
  rw [normSq_overlap, dot_scale_left, ← ofReal_normSq, Complex.normSq_mul, hstar, Complex.normSq_ofReal, normSq_scale,
    div_eq_one_iff_eq hpos]
  ring

section Positive
variable {t : ℝ} (ht : 0 < t)
include ht

theorem overlap_scale_left (v w : Ket ℂ) (hsize : v.size = w.size) : overlap (v.scale t) w = overlap v w := by
  have ht' : (t : ℂ) ≠ 0 := Complex.ofReal_ne_zero.mpr ht.ne'
  rw [overlap, overlap, dot_scale_right hsize.symm, norm_scale, Complex.norm_of_nonneg ht.le, mul_right_comm,
    mul_comm _ t, Complex.ofReal_mul t, mul_div_mul_left _ _ ht']

theorem overlap_scale_right (v w : Ket ℂ) (hsize : v.size = w.size) : overlap v (w.scale t) = overlap v w := by
  have hscale : v.size = (w.scale t).size := by rwa [size_scale]
  rw [← star_overlap hscale.symm, overlap_scale_left ht w v hsize.symm, star_overlap hsize.symm]

end Positive

/-! ### Probabilities -/

theorem probability?_eq_div (hv : v.IsNonzero) {i : Nat} (hi : i < v.size) :
    v.probability? i = .ok (Complex.normSq (v.getD i 0) / normSq v) := by
  have htotal : ((normSq v : ℝ) == 0) = false := beq_eq_false_iff_ne.mpr hv.normSq_pos.ne'
  rw [probability?, dif_pos hi, Array.getD_eq_getD_getElem?, Array.getElem?_eq_getElem hi]
  exact if_neg (htotal ▸ Bool.false_ne_true)

/-- The two ways to normalize agree: by the squared norm, and by the norms of the ket and of the basis state. -/
theorem normSq_overlap_basis {i : Nat} (hi : i < v.size) :
    Complex.normSq (overlap v (basis v.size i)) = Complex.normSq (v.getD i 0) / normSq v := by
  rw [normSq_overlap, dot_basis hi, normSq_basis hi, mul_one]

/-- Transitions of two kets that are not zero have amplitudes that are conjugate to each other, do not change if a ket is
    multiplied by a positive number, and have a squared modulus up to one, which is one if the kets differ by a factor. The
    probabilities of the basis states are these squared moduli, and add up to one. -/
theorem transitions (v w : Ket ℂ) (hsize : v.size = w.size) (hv : v.IsNonzero) (hw : w.IsNonzero) :
    (∃ z, v.transition? w = .ok z ∧ w.transition? v = .ok (star z) ∧ Complex.normSq z ≤ 1 ∧
      ∀ t : ℝ, 0 < t → (v.scale t).transition? w = .ok z ∧ v.transition? (w.scale t) = .ok z) ∧
    (∀ c : ℂ, c ≠ 0 → ∃ z, v.transition? (v.scale c) = .ok z ∧ Complex.normSq z = 1) ∧
    ∃ p : Nat → ℝ, ∑ i ∈ range v.size, p i = 1 ∧ ∀ i < v.size, v.probability? i = .ok (p i) ∧ 0 ≤ p i ∧
      ∃ z, v.transition? (basis v.size i) = .ok z ∧ p i = Complex.normSq z := by
  refine ⟨⟨overlap v w, transition?_eq_overlap hsize hv hw, ?_, normSq_overlap_le hsize hv hw, fun t ht => ?_⟩,
    fun c hc => ?_, fun i => Complex.normSq (v.getD i 0) / normSq v, ?_, fun i hi => ?_⟩
  · rw [star_overlap hsize, transition?_eq_overlap hsize.symm hw hv]
  · have ht' : (t : ℂ) ≠ 0 := Complex.ofReal_ne_zero.mpr ht.ne'
    rw [← overlap_scale_left ht v w hsize]
    refine ⟨transition?_eq_overlap ((size_scale v t).trans hsize) (hv.scale ht') hw, ?_⟩
    rw [overlap_scale_left ht v w hsize, ← overlap_scale_right ht v w hsize]
    exact transition?_eq_overlap (hsize.trans (size_scale w t).symm) hv (hw.scale ht')
  · exact ⟨_, transition?_eq_overlap (size_scale v c).symm hv (hv.scale hc), normSq_overlap_scale hv hc⟩
  · rw [← sum_div, ← normSq_eq_sum, div_self hv.normSq_pos.ne']
  · exact ⟨probability?_eq_div hv hi, div_nonneg (Complex.normSq_nonneg _) (normSq_nonneg v), _,
      transition?_eq_overlap (size_basis v.size i).symm hv (isNonzero_basis hi), (normSq_overlap_basis hi).symm⟩

/-- A ket of norm five and a basis state. -/
theorem transitions_unnormalized :
    let v : Ket ℂ := #[3, 4 * Complex.I]
    let w : Ket ℂ := #[0, 1]
    (v.size = w.size ∧ v.IsNonzero ∧ w.IsNonzero ∧ (0 : ℝ) < 2 ∧ -Complex.I ≠ 0) ∧
      (∃ z, v.transition? w = .ok z ∧ w.transition? v = .ok (star z) ∧ (v.scale (2 : ℝ)).transition? w = .ok z) ∧
      (∃ z, v.transition? (v.scale (-Complex.I)) = .ok z ∧ Complex.normSq z = 1) ∧
      ∃ p q : ℝ, v.probability? 0 = .ok p ∧ v.probability? 1 = .ok q ∧ p + q = 1 := by
  intro v w
  have hv : v.IsNonzero := ⟨3, by simp [v], by norm_num⟩
  have hw : w.IsNonzero := ⟨1, by simp [w], one_ne_zero⟩
  have hi : -Complex.I ≠ 0 := neg_ne_zero.mpr Complex.I_ne_zero
  obtain ⟨⟨z, hz, hstar, -, hscale⟩, hfactor, p, hsum, hp⟩ := transitions v w rfl hv hw
  obtain ⟨hzero, -⟩ := hp 0 Nat.two_pos
  obtain ⟨hone, -⟩ := hp 1 Nat.one_lt_two
  refine ⟨⟨rfl, hv, hw, two_pos, hi⟩, ⟨z, hz, hstar, (hscale 2 two_pos).1⟩, hfactor _ hi, p 0, p 1, hzero, hone, ?_⟩
  exact ((sum_range_succ p 1).trans (congrArg (· + p 1) (sum_range_one p))).symm.trans hsum

end Ketscript.Ket
