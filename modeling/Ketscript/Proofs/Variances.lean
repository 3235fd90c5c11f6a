import Ketscript.Binary64.Scalar
import Ketscript.Proofs.Observables
import Mathlib.Algebra.Order.Chebyshev

/-! Which observables with a mean have a variance. A mean is computed for a matrix that is hermitian up to a tolerance, and
    the variance is the mean of a square, which has to be hermitian up to the same tolerance. But a product multiplies the
    deviations by the entries: the square of a matrix `d` differs from its adjoint by `d (d - d†) + (d - d†) d†`. So the
    variance can be refused for a matrix with a mean, and is not if the deviations or the entries are small enough, as
    they are if the matrix is its own adjoint. -/

namespace Ketscript.Matrix
open Finset
variable {d m : Matrix ℂ} {v : Ket ℂ} {x z w : ℂ}

/-! ### Deviations -/

/-- Both parts are zero up to the tolerance. -/
def IsSmall (z : ℂ) : Prop := |z.re| ≤ RealScalar.tolerance ∧ |z.im| ≤ RealScalar.tolerance

theorem near_iff : near (RealScalar.tolerance : ℝ) z w = true ↔ IsSmall (z - w) := by
  have hpart (x y : ℝ) : RealScalar.abs (x - y) = |x - y| := rfl
  rw [near, Bool.and_eq_true, decide_eq_true_iff, decide_eq_true_iff, hpart, hpart]
  rfl

theorem isSmall_of_norm_le (h : ‖z‖ ≤ 1 / 10 ^ 9) : IsSmall z := by
  rw [← tolerance_eq] at h
  exact ⟨(Complex.abs_re_le_norm z).trans h, (Complex.abs_im_le_norm z).trans h⟩

/-- The deviation of an entry from that of the adjoint. -/
noncomputable def asymmetry (m : Matrix ℂ) (r c : Nat) : ℂ := m.entry r c - star (m.entry c r)

theorem asymmetry_of_adjoint (hm : m.adjoint = m) {r c : Nat} (hr : r < m.rows) (hc : c < m.rows) :
    m.asymmetry r c = 0 := by
  have hsquare : m.rows = m.cols := isSquare_of_adjoint hm
  rw [asymmetry, ← entry_adjoint m (hsquare ▸ hr) hc, hm, sub_self]

/-- The deviation of an entry of the square, by the entries and their deviations. -/
noncomputable def squareAsymmetry (d : Matrix ℂ) (r c : Nat) : ℂ :=
  ∑ k ∈ range d.rows, (d.entry r k * d.asymmetry k c + d.asymmetry r k * star (d.entry c k))

theorem asymmetry_mul_self (hsquare : d.IsSquare) {r c : Nat} (hr : r < d.rows) (hc : c < d.rows) :
    (d.mul d).asymmetry r c = d.squareAsymmetry r c := by
  have hsquare : d.rows = d.cols := hsquare
  rw [asymmetry, entry_mul hsquare.symm hr (hsquare ▸ hc), entry_mul hsquare.symm hc (hsquare ▸ hr), star_sum,
    ← sum_sub_distrib, squareAsymmetry, hsquare]
  refine sum_congr rfl fun k _ => ?_
  rw [asymmetry, asymmetry, star_mul]
  ring

theorem asymmetry_shift (hsquare : m.IsSquare) (x : ℂ) {r c : Nat} (hr : r < m.rows) (hc : c < m.rows) :
    (m.shift x).asymmetry r c = m.asymmetry r c - if r = c then x - star x else 0 := by
  have hsquare : m.rows = m.cols := hsquare
  rw [asymmetry, asymmetry, entry_shift m x hr (hsquare ▸ hc), entry_shift m x hc (hsquare ▸ hr), star_sub, apply_ite star,
    star_zero]
  by_cases hrc : r = c
  · simp only [hrc, if_true]
    ring
  · simp only [hrc, Ne.symm hrc, if_false, sub_zero]

theorem variance?_eq_ok_iff (h : m.mean? v = .ok x) : (∃ y, m.variance? v = .ok y) ↔
    ∀ r < m.rows, ∀ c < m.rows, IsSmall ((m.shift x).squareAsymmetry r c) := by
  obtain ⟨hhermitian, hsize, -⟩ := mean?_eq_ok.mp h
  have hsquare : (m.shift x).IsSquare := (isHermitian_iff.mp hhermitian).1
  have hmul : ((m.shift x).mul (m.shift x)).IsSquare := hsquare
  have hrows : ((m.shift x).mul (m.shift x)).rows = v.size := hsize
  simp only [variance?_eq_mean? h, mean?_eq_ok, isHermitian_iff, near_iff, exists_and_left, exists_eq', and_true]
  rw [and_iff_left hrows, and_iff_right hmul]
  refine forall₂_congr fun r hr => forall₂_congr fun c hc => ?_
  rw [← asymmetry_mul_self hsquare hr hc]
  rfl

theorem variance?_cases (h : m.mean? v = .ok x) :
    (∃ y, m.variance? v = .ok y) ∨ m.variance? v = .error .notHermitian := by
  obtain ⟨-, hsize, -⟩ := mean?_eq_ok.mp h
  rw [variance?_eq_mean? h]
  cases hsquare : ((m.shift x).mul (m.shift x)).isHermitian RealScalar.tolerance with
  | false => exact .inr (mean?_of_not_isHermitian hsquare)
  | true => exact .inl ⟨_, mean?_of_isHermitian hsquare hsize⟩

/-! ### Bounds -/

/-- The quadratic form with given coefficients. -/
noncomputable def form (v : Ket ℂ) (f : Nat → Nat → ℂ) : ℂ :=
  ∑ r ∈ range v.size, star (v.getD r 0) * ∑ c ∈ range v.size, f r c * v.getD c 0

/-- A quadratic form is at most the bound of its coefficients, times the squared norm for every entry of the ket. -/
theorem norm_form_le {f : Nat → Nat → ℂ} {bound : ℝ} (hbound : 0 ≤ bound)
    (h : ∀ r < v.size, ∀ c < v.size, ‖f r c‖ ≤ bound) : ‖form v f‖ ≤ bound * (v.size * Ket.normSq v) := by
  have hrow (r : Nat) (hr : r < v.size) : ‖∑ c ∈ range v.size, f r c * v.getD c 0‖ ≤
      bound * ∑ c ∈ range v.size, ‖v.getD c 0‖ := by
    rw [mul_sum]
    refine norm_sum_le_of_le _ fun c hc => ?_
    rw [norm_mul]
    exact mul_le_mul_of_nonneg_right (h r hr c (mem_range.mp hc)) (norm_nonneg _)
  calc ‖form v f‖
      ≤ ∑ r ∈ range v.size, ‖v.getD r 0‖ * (bound * ∑ c ∈ range v.size, ‖v.getD c 0‖) := by
        refine norm_sum_le_of_le _ fun r hr => ?_
        rw [norm_mul, norm_star]
        exact mul_le_mul_of_nonneg_left (hrow r (mem_range.mp hr)) (norm_nonneg _)
    _ = bound * (∑ c ∈ range v.size, ‖v.getD c 0‖) ^ 2 := by
        rw [← sum_mul]
        ring
    _ ≤ bound * (v.size * Ket.normSq v) := by
        have hcard := sq_sum_le_card_mul_sum_sq (s := range v.size) (f := fun c => ‖v.getD c 0‖)
        rw [card_range, ← Ket.normSq_eq_sum_sq] at hcard
        exact mul_le_mul_of_nonneg_left hcard hbound

/-- Coefficients from whose diagonal the quadratic form is taken off, as the shift by the mean does. -/
theorem norm_sub_form_le {f : Nat → Nat → ℂ} {bound : ℝ} (h : ∀ r < v.size, ∀ c < v.size, ‖f r c‖ ≤ bound) {r c : Nat}
    (hr : r < v.size) (hc : c < v.size) :
    ‖f r c - if r = c then form v f else 0‖ ≤ bound * (1 + v.size * Ket.normSq v) := by
  have hbound : 0 ≤ bound := (norm_nonneg _).trans (h r hr c hc)
  have hdiagonal : ‖if r = c then form v f else 0‖ ≤ bound * (v.size * Ket.normSq v) := by
    split
    · exact norm_form_le hbound h
    · rw [norm_zero]
      exact (norm_nonneg _).trans (norm_form_le hbound h)
  calc ‖f r c - if r = c then form v f else 0‖
      ≤ ‖f r c‖ + ‖if r = c then form v f else 0‖ := norm_sub_le _ _
    _ ≤ bound + bound * (v.size * Ket.normSq v) := add_le_add (h r hr c hc) hdiagonal
    _ = bound * (1 + v.size * Ket.normSq v) := by ring

section Bounds
variable (hsquare : m.IsSquare) (hrows : m.rows = v.size)
include hsquare hrows

theorem dot_act_eq_form : Ket.dot v (m.act v) = form v m.entry := by
  have hsquare : m.rows = m.cols := hsquare
  refine sum_congr rfl fun r hr => ?_
  rw [getD_act m v (hrows ▸ mem_range.mp hr), ← hsquare, hrows]

/-- The imaginary part of the mean comes from the deviations. -/
theorem dot_act_sub_star : Ket.dot v (m.act v) - star (Ket.dot v (m.act v)) = form v m.asymmetry := by
  have hcols : v.size = m.cols := hrows.symm.trans hsquare
  have hadjoint : Ket.dot (m.act v) v = form v m.adjoint.entry := by
    rw [dot_act_left m v v hcols]
    exact dot_act_eq_form (m := m.adjoint) (Eq.symm hsquare) hcols.symm
  rw [Ket.star_dot (hrows.symm.trans (size_act m v).symm), hadjoint, dot_act_eq_form hsquare hrows, form, form, form,
    ← sum_sub_distrib]
  refine sum_congr rfl fun r hr => ?_
  rw [← mul_sub, ← sum_sub_distrib]
  refine congrArg (_ * ·) (sum_congr rfl fun c hc => ?_)
  rw [asymmetry, entry_adjoint m (hcols ▸ mem_range.mp hr) (hrows ▸ mem_range.mp hc), sub_mul]

variable {bound deviation : ℝ} (hx : Ket.dot v (m.act v) = x)
include hx

theorem norm_entry_shift_le (hbound : ∀ r < m.rows, ∀ c < m.rows, ‖m.entry r c‖ ≤ bound) {r c : Nat} (hr : r < m.rows)
    (hc : c < m.rows) : ‖(m.shift x).entry r c‖ ≤ bound * (1 + m.rows * Ket.normSq v) := by
  rw [entry_shift m x hr (Eq.subst hsquare hc), ← hx, dot_act_eq_form hsquare hrows, hrows]
  exact norm_sub_form_le (hrows ▸ hbound) (hrows ▸ hr) (hrows ▸ hc)

theorem norm_asymmetry_shift_le (hdeviation : ∀ r < m.rows, ∀ c < m.rows, ‖m.asymmetry r c‖ ≤ deviation) {r c : Nat}
    (hr : r < m.rows) (hc : c < m.rows) :
    ‖(m.shift x).asymmetry r c‖ ≤ deviation * (1 + m.rows * Ket.normSq v) := by
  rw [asymmetry_shift hsquare x hr hc, ← hx, dot_act_sub_star hsquare hrows, hrows]
  exact norm_sub_form_le (hrows ▸ hdeviation) (hrows ▸ hr) (hrows ▸ hc)

end Bounds

theorem norm_squareAsymmetry_le {bound deviation : ℝ} (hbound : ∀ r < d.rows, ∀ c < d.rows, ‖d.entry r c‖ ≤ bound)
    (hdeviation : ∀ r < d.rows, ∀ c < d.rows, ‖d.asymmetry r c‖ ≤ deviation) {r c : Nat} (hr : r < d.rows)
    (hc : c < d.rows) : ‖d.squareAsymmetry r c‖ ≤ d.rows * (2 * (bound * deviation)) := by
  have hterm (k : Nat) (hk : k ∈ range d.rows) :
      ‖d.entry r k * d.asymmetry k c + d.asymmetry r k * star (d.entry c k)‖ ≤ 2 * (bound * deviation) := by
    have hk := mem_range.mp hk
    have hnonneg : 0 ≤ bound := (norm_nonneg _).trans (hbound r hr k hk)
    have hnonneg' : 0 ≤ deviation := (norm_nonneg _).trans (hdeviation r hr k hk)
    calc ‖d.entry r k * d.asymmetry k c + d.asymmetry r k * star (d.entry c k)‖
        ≤ ‖d.entry r k‖ * ‖d.asymmetry k c‖ + ‖d.asymmetry r k‖ * ‖d.entry c k‖ := by
          refine (norm_add_le _ _).trans_eq ?_
          rw [norm_mul, norm_mul, norm_star]
      _ ≤ bound * deviation + deviation * bound :=
          add_le_add (mul_le_mul (hbound r hr k hk) (hdeviation k hk c hc) (norm_nonneg _) hnonneg)
            (mul_le_mul (hdeviation r hr k hk) (hbound c hc k hk) (norm_nonneg _) hnonneg')
      _ = 2 * (bound * deviation) := by ring
  refine (norm_sum_le_of_le _ hterm).trans_eq ?_
  rw [sum_const, card_range, nsmul_eq_mul]

/-- A matrix with a mean has a variance if the square of the shifted matrix is hermitian up to the tolerance, and there is no
    other cause to refuse it. The deviations of the square are at most those of the matrix, times the entries, times a
    factor that only depends on the size and on the norm of the ket; so they vanish for a matrix that is its own adjoint. -/
theorem variance_of_mean (m : Matrix ℂ) (v : Ket ℂ) (x : ℂ) (h : m.mean? v = .ok x) :
    ((∃ y, m.variance? v = .ok y) ↔ ∀ r < m.rows, ∀ c < m.rows, IsSmall ((m.shift x).squareAsymmetry r c)) ∧
    ((∃ y, m.variance? v = .ok y) ∨ m.variance? v = .error .notHermitian) ∧
    (∀ bound deviation : ℝ, (∀ r < m.rows, ∀ c < m.rows, ‖m.entry r c‖ ≤ bound ∧ ‖m.asymmetry r c‖ ≤ deviation) →
      2 * m.rows * bound * deviation * (1 + m.rows * Ket.normSq v) ^ 2 ≤ 1 / 10 ^ 9 → ∃ y, m.variance? v = .ok y) ∧
    (m.adjoint = m → ∃ y, m.variance? v = .ok y) := by
  obtain ⟨hhermitian, hrows, hx⟩ := mean?_eq_ok.mp h
  have hsquare : m.IsSquare := (isHermitian_iff.mp hhermitian).1
  refine ⟨variance?_eq_ok_iff h, variance?_cases h, fun bound deviation hm hsmall => ?_, fun hm => ?_⟩
  · refine (variance?_eq_ok_iff h).mpr fun r hr c hc => isSmall_of_norm_le (le_trans ?_ hsmall)
    refine (norm_squareAsymmetry_le (d := m.shift x)
      (fun r hr c hc => norm_entry_shift_le hsquare hrows hx (fun r hr c hc => (hm r hr c hc).1) hr hc)
      (fun r hr c hc => norm_asymmetry_shift_le hsquare hrows hx (fun r hr c hc => (hm r hr c hc).2) hr hc)
      hr hc).trans_eq ?_
    show (m.rows : ℝ) * (2 * (bound * (1 + m.rows * Ket.normSq v) * (deviation * (1 + m.rows * Ket.normSq v)))) = _
    ring
  · obtain ⟨mean, hmean⟩ := exists_dot_act_eq hm hrows.symm
    obtain rfl : x = mean := hx.symm.trans hmean
    exact ⟨_, variance?_eq_normSq hm hrows h⟩

/-- A matrix that is not its own adjoint, but has small entries, and one with large entries that is its own adjoint. -/
theorem variance_of_mean_small :
    let v : Ket ℂ := #[1, 0]
    let m : Matrix ℂ := ⟨2, 2, #[1 / 100, 1 / 10 ^ 9, 0, 1 / 100], Nat.two_pos, Nat.two_pos, rfl⟩
    let a : Matrix ℂ := ⟨2, 2, #[1000, Complex.I, -Complex.I, 2000], Nat.two_pos, Nat.two_pos, rfl⟩
    (m.adjoint ≠ m ∧ a.adjoint = a ∧ m.mean? v = .ok (1 / 100) ∧ a.mean? v = .ok 1000) ∧
      (∃ y, m.variance? v = .ok y) ∧ ∃ y, a.variance? v = .ok y := by
  intro v m a
  have hm : m.adjoint ≠ m := fun h => by
    have hzero := asymmetry_of_adjoint h (r := 0) (c := 1) Nat.two_pos Nat.one_lt_two
    simp [m, asymmetry, entry] at hzero
  have ha : a.adjoint = a := by
    refine adjoint_eq_of_entries rfl (forall_lt_two ?_ ?_ ?_ ?_) <;> simp [a, entry]
  have hsmall : ∀ r < m.rows, ∀ c < m.rows, ‖m.entry r c‖ ≤ 1 / 100 ∧ ‖m.asymmetry r c‖ ≤ 1 / 10 ^ 9 := by
    refine forall_lt_two ?_ ?_ ?_ ?_ <;> norm_num [m, asymmetry, entry]
  have hmean : m.mean? v = .ok (1 / 100) := by
    refine mean?_eq_ok.mpr ⟨isHermitian_iff.mpr ⟨rfl, fun r hr c hc => ?_⟩, rfl, ?_⟩
    · exact near_iff.mpr (isSmall_of_norm_le (hsmall r hr c hc).2)
    · rw [act_two rfl rfl]
      simp [Ket.dot, v, m, entry, sum_range_succ]
  have hmean' : a.mean? v = .ok 1000 := by
    refine mean?_eq_ok.mpr ⟨isHermitian_of_adjoint ha tolerance_nonneg, rfl, ?_⟩
    rw [act_two rfl rfl]
    simp [Ket.dot, v, a, entry, sum_range_succ]
  have hnorm : (Ket.normSq v : ℝ) = 1 := by
    rw [Ket.normSq_eq_sum]
    simp [v, sum_range_succ]
  obtain ⟨-, -, hbound, -⟩ := variance_of_mean m v _ hmean
  obtain ⟨-, -, -, hadjoint⟩ := variance_of_mean a v _ hmean'
  refine ⟨⟨hm, ha, hmean, hmean'⟩, hbound (1 / 100) (1 / 10 ^ 9) hsmall ?_, hadjoint ha⟩
  show 2 * ((2 : ℕ) : ℝ) * _ * _ * (1 + ((2 : ℕ) : ℝ) * _) ^ 2 ≤ _
  rw [hnorm]
  norm_num

/-- The first basis state is an eigenvector of a matrix that has a mean, so its variance is zero. It is refused because a
    deviation of `10 ^ -9` is multiplied by an entry of two, in exact arithmetic and in binary64 arithmetic. -/
theorem variance_refused :
    let m : Matrix ℂ := ⟨2, 2, #[2, 1 / 10 ^ 9, 0, 0], Nat.two_pos, Nat.two_pos, rfl⟩
    let v : Ket ℂ := #[1, 0]
    let rounded : Matrix FloatComplex :=
      ⟨2, 2, #[⟨2.0, 0.0⟩, ⟨1e-9, 0.0⟩, ⟨0.0, 0.0⟩, ⟨0.0, 0.0⟩], Nat.two_pos, Nat.two_pos, rfl⟩
    let basis : Ket FloatComplex := #[⟨1.0, 0.0⟩, ⟨0.0, 0.0⟩]
    (m.mean? v = .ok 2 ∧ m.variance? v = .error .notHermitian ∧ ¬∃ y, m.variance? v = .ok y) ∧
      rounded.mean? basis = .ok ⟨2.0, 0.0⟩ ∧ rounded.variance? basis = .error .notHermitian := by
  intro m v rounded basis
  have hhermitian : m.isHermitian RealScalar.tolerance = true := by
    have hsmall : ∀ r < 2, ∀ c < 2, ‖m.asymmetry r c‖ ≤ 1 / 10 ^ 9 := by
      refine forall_lt_two ?_ ?_ ?_ ?_ <;> simp [m, asymmetry, entry]
    exact isHermitian_iff.mpr ⟨rfl, fun r hr c hc => near_iff.mpr (isSmall_of_norm_le (hsmall r hr c hc))⟩
  have hmean : m.mean? v = .ok 2 := by
    refine mean?_eq_ok.mpr ⟨hhermitian, rfl, ?_⟩
    rw [act_two rfl rfl]
    simp [Ket.dot, v, m, entry, sum_range_succ]
  have hlarge : ¬IsSmall ((m.shift 2).squareAsymmetry 0 1) := by
    have hentry {r c : Nat} (hr : r < 2) (hc : c < 2) : (m.shift 2).entry r c = m.entry r c - if r = c then 2 else 0 :=
      entry_shift m 2 hr hc
    have hzero : (m.shift 2).entry 0 0 = 0 := (hentry Nat.two_pos Nat.two_pos).trans (by simp [m, entry])
    have hright : (m.shift 2).entry 0 1 = 1 / 10 ^ 9 := (hentry Nat.two_pos Nat.one_lt_two).trans (by simp [m, entry])
    have hleft : (m.shift 2).entry 1 0 = 0 := (hentry Nat.one_lt_two Nat.two_pos).trans (by simp [m, entry])
    have hlast : (m.shift 2).entry 1 1 = -2 := (hentry Nat.one_lt_two Nat.one_lt_two).trans (by simp [m, entry])
    have hvalue : (m.shift 2).squareAsymmetry 0 1 = ((-2 / 10 ^ 9 : ℝ) : ℂ) := by
      show ∑ k ∈ range 2, _ = _
      rw [sum_range_succ, sum_range_one]
      norm_num [asymmetry, hzero, hright, hleft, hlast]
    rintro ⟨hre, -⟩
    rw [hvalue, Complex.ofReal_re, tolerance_eq] at hre
    norm_num [abs_of_pos] at hre
  have hnone : ¬∃ y, m.variance? v = .ok y := fun h =>
    hlarge ((variance?_eq_ok_iff hmean).mp h 0 Nat.two_pos 1 Nat.one_lt_two)
  exact ⟨⟨hmean, (variance?_cases hmean).resolve_left hnone, hnone⟩, by decide +kernel, by decide +kernel⟩

end Ketscript.Matrix
