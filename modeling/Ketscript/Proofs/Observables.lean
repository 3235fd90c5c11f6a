import Ketscript.Linear.Observable
import Ketscript.Proofs.Checks
import Ketscript.Proofs.Linear.InnerProduct
import Ketscript.Proofs.Linear.Unitary

/-! The mean and the variance of an observable in exact arithmetic. A hermitian matrix may stand on either side of an
    inner product, so its mean is real. Shifted by the mean it is still hermitian, so the mean of the square of the shifted
    matrix is a squared norm: that of the shifted matrix acting on the ket. For a ket of norm one the variance is then the
    mean of the square minus the square of the mean, and on an eigenvector it is zero. -/

namespace Ketscript.Matrix
open Finset
variable {a m : Matrix ℂ} {v w : Ket ℂ} {x : ℂ}

theorem tolerance_nonneg : 0 ≤ (RealScalar.tolerance : ℝ) := by
  rw [tolerance_eq]
  positivity

theorem entry_scale (m : Matrix ℂ) (x : ℂ) {r c : Nat} (hr : r < m.rows) (hc : c < m.cols) :
    (m.scale x).entry r c = m.entry r c * x :=
  entry_ofFn m.rows_pos m.cols_pos _ hr hc

/-! ### Hermitian matrices -/

theorem isHermitian_iff {tolerance : ℝ} : m.isHermitian tolerance = true ↔ m.IsSquare ∧
    ∀ r < m.rows, ∀ c < m.rows, near tolerance (m.entry r c) (star (m.entry c r)) = true := by
  rw [isHermitian, Bool.and_eq_true, decide_eq_true_iff]
  refine and_congr_right fun hsquare => ⟨fun h r hr c hc => ?_, fun h => ?_⟩
  · have hsquare : m.rows = m.cols := hsquare
    rw [← entry_adjoint m (hsquare ▸ hr) hc]
    exact near_of_approxEq h hr (hsquare ▸ hc)
  · have hsquare : m.rows = m.cols := hsquare
    refine approxEq_of_near hsquare hsquare.symm fun r hr c hc => ?_
    rw [entry_adjoint m (hsquare ▸ hr) (hsquare.symm ▸ hc)]
    exact h r hr c (hsquare.symm ▸ hc)

section Adjoint
variable (hm : m.adjoint = m)
include hm

theorem isSquare_of_adjoint : m.IsSquare := (congrArg cols hm)

theorem isHermitian_of_adjoint {tolerance : ℝ} (ht : 0 ≤ tolerance) : m.isHermitian tolerance = true := by
  rw [isHermitian, hm, approxEq_self _ ht, decide_eq_true (isSquare_of_adjoint hm), Bool.and_self]

/-- A hermitian matrix may stand on either side of an inner product. -/
theorem dot_act_comm (hv : v.size = m.rows) (w : Ket ℂ) : Ket.dot (m.act v) w = Ket.dot v (m.act w) := by
  rw [dot_act_left m v w (hv.trans (isSquare_of_adjoint hm)), hm]

theorem exists_dot_act_eq (hv : v.size = m.rows) : ∃ mean : ℝ, Ket.dot v (m.act v) = mean := by
  refine Complex.conj_eq_iff_real.mp ?_
  rw [← Complex.star_def, Ket.star_dot (hv.trans (size_act m v).symm), dot_act_comm hm hv]

end Adjoint

/-! ### Means -/

theorem mean?_of_isHermitian (h : m.isHermitian RealScalar.tolerance = true) (hsize : m.rows = v.size) :
    m.mean? v = .ok (Ket.dot v (m.act v)) := by
  have hsquare : m.rows = m.cols := (isHermitian_iff.mp h).1
  have hobserves : m.observes v = .ok () := by
    rw [observes, h]
    exact if_neg (not_not_intro hsize)
  rw [mean?, hobserves, act?, if_pos (hsquare.symm.trans hsize)]
  exact Ket.inner?_eq_dot (hsize.symm.trans (size_act m v).symm)

theorem mean?_of_not_isHermitian (h : m.isHermitian RealScalar.tolerance = false) :
    m.mean? v = .error .notHermitian := by
  rw [mean?, observes, h]
  rfl

/-- A mean is computed if the matrix is hermitian up to the tolerance and has the size of the ket. -/
theorem mean?_eq_ok : m.mean? v = .ok x ↔
    m.isHermitian RealScalar.tolerance = true ∧ m.rows = v.size ∧ Ket.dot v (m.act v) = x := by
  cases h : m.isHermitian RealScalar.tolerance with
  | false => simp [mean?_of_not_isHermitian h]
  | true =>
    by_cases hsize : m.rows = v.size
    · simp [mean?_of_isHermitian h hsize, hsize]
    · have hmean : m.mean? v = .error (.lengths m.rows v.size) := by
        have hobserves : m.observes v = .error (.lengths m.rows v.size) := by
          rw [observes, h]
          exact if_pos hsize
        rw [mean?, hobserves]
        rfl
      simp [hmean, hsize]

/-- The mean of the square of a hermitian matrix is a squared norm. -/
theorem mean?_mul_self (ha : a.adjoint = a) (hsize : a.rows = v.size) :
    (a.mul a).mean? v = .ok ((Ket.normSq (a.act v) : ℝ) : ℂ) := by
  have hsquare : a.cols = a.rows := (isSquare_of_adjoint ha).symm
  have hmul : (a.mul a).adjoint = a.mul a := by rw [adjoint_mul hsquare, ha]
  rw [mean?_of_isHermitian (isHermitian_of_adjoint hmul tolerance_nonneg) hsize, act_mul hsquare,
    ← dot_act_comm ha hsize.symm, ← Ket.ofReal_normSq]

/-! ### Shifts -/

/-- The matrix minus a multiple of the identity. -/
noncomputable def shift (m : Matrix ℂ) (x : ℂ) : Matrix ℂ :=
  ofFn m.rows m.cols m.rows_pos m.cols_pos fun r c => m.entry r c - if r = c then x else 0

theorem entry_shift (m : Matrix ℂ) (x : ℂ) {r c : Nat} (hr : r < m.rows) (hc : c < m.cols) :
    (m.shift x).entry r c = m.entry r c - if r = c then x else 0 :=
  entry_ofFn m.rows_pos m.cols_pos _ hr hc

theorem add?_scale_identity (hsquare : m.IsSquare) (hsize : m.rows = v.size) (x : ℂ) :
    ∃ one, identity? v.size = .ok one ∧ m.add? (one.scale (-x)) = .ok (m.shift x) := by
  have hsquare : m.rows = m.cols := hsquare
  refine ⟨identity v.size (hsize ▸ m.rows_pos), dif_pos _, ?_⟩
  rw [add?, if_pos ⟨hsize, hsquare.symm.trans hsize⟩]
  refine congrArg Except.ok (ext_entry rfl rfl fun r (hr : r < m.rows) c (hc : c < m.cols) => ?_)
  have hr' : r < v.size := hsize ▸ hr
  have hc' : c < v.size := hsize ▸ hsquare ▸ hc
  rw [entry_ofFn m.rows_pos m.cols_pos _ hr hc, entry_scale _ _ hr' hc', entry_identity _ hr' hc', entry_shift m x hr hc,
    ite_mul, one_mul, zero_mul]
  split
  · rw [sub_eq_add_neg]
  · rw [add_zero, sub_zero]

theorem adjoint_shift (hsquare : m.IsSquare) (x : ℂ) : (m.shift x).adjoint = m.adjoint.shift (star x) := by
  have hsquare : m.rows = m.cols := hsquare
  refine ext_entry rfl rfl fun r hr c hc => ?_
  rw [entry_adjoint (m.shift x) hr hc, entry_shift m x hc hr, entry_shift m.adjoint _ hr hc, entry_adjoint m hr hc,
    star_sub, apply_ite star, star_zero]
  simp only [eq_comm]

theorem getD_act_shift (m : Matrix ℂ) (w : Ket ℂ) (x : ℂ) {r : Nat} (hr : r < m.rows) (hr' : r < m.cols) :
    ((m.shift x).act w).getD r 0 = (m.act w).getD r 0 - x * w.getD r 0 := by
  have hentry (k : Nat) (hk : k ∈ range m.cols) : (m.shift x).entry r k * w.getD k 0 =
      m.entry r k * w.getD k 0 - if r = k then x * w.getD k 0 else 0 := by
    rw [entry_shift m x hr (mem_range.mp hk), sub_mul, ite_mul, zero_mul]
  rw [getD_act (m.shift x) w hr, getD_act m w hr]
  show ∑ k ∈ range m.cols, (m.shift x).entry r k * w.getD k 0 = _
  rw [sum_congr rfl hentry, sum_sub_distrib, sum_ite_eq, if_pos (mem_range.mpr hr')]

theorem dot_act_shift (hsquare : m.IsSquare) (hv : v.size = m.rows) (w : Ket ℂ) (x : ℂ) :
    Ket.dot v ((m.shift x).act w) = Ket.dot v (m.act w) - x * Ket.dot v w := by
  have hsquare : m.rows = m.cols := hsquare
  simp only [Ket.dot, mul_sum, ← sum_sub_distrib]
  refine sum_congr rfl fun r hr => ?_
  have hr : r < m.rows := hv ▸ mem_range.mp hr
  rw [getD_act_shift m w x hr (hsquare ▸ hr)]
  ring

/-- The variance is the mean of the square of the matrix that is shifted by its mean. -/
theorem variance?_eq_mean? (h : m.mean? v = .ok x) : m.variance? v = ((m.shift x).mul (m.shift x)).mean? v := by
  obtain ⟨hhermitian, hsize, -⟩ := mean?_eq_ok.mp h
  have hsquare : m.IsSquare := (isHermitian_iff.mp hhermitian).1
  obtain ⟨one, hone, hadd⟩ := add?_scale_identity hsquare hsize x
  have hmul : (m.shift x).mul? (m.shift x) = .ok ((m.shift x).mul (m.shift x)) := if_pos (Eq.symm hsquare)
  rw [variance?, h, hone]
  show (m.add? (one.scale (-x)) >>= fun delta => delta.mul? delta >>= fun square => square.mean? v) = _
  rw [hadd]
  show ((m.shift x).mul? (m.shift x) >>= fun square => square.mean? v) = _
  rw [hmul]
  rfl

/-! ### Hermitian observables -/

section Hermitian
variable {mean : ℝ} (hm : m.adjoint = m) (hsize : m.rows = v.size)
include hm

theorem adjoint_shift_ofReal (mean : ℝ) : (m.shift mean).adjoint = m.shift mean := by
  rw [adjoint_shift (isSquare_of_adjoint hm), hm]
  exact congrArg m.shift (Complex.conj_ofReal mean)

include hsize

theorem variance?_eq_normSq (h : m.mean? v = .ok (mean : ℂ)) :
    m.variance? v = .ok ((Ket.normSq ((m.shift mean).act v) : ℝ) : ℂ) := by
  rw [variance?_eq_mean? h]
  exact mean?_mul_self (adjoint_shift_ofReal hm mean) hsize

/-- For a ket of norm one the square of the mean is what the shift takes off. -/
theorem normSq_act_shift (hmean : Ket.dot v (m.act v) = mean) (hnorm : (Ket.normSq v : ℝ) = 1) :
    (Ket.normSq ((m.shift mean).act v) : ℝ) = Ket.normSq (m.act v) - mean ^ 2 := by
  have hsquare : m.IsSquare := isSquare_of_adjoint hm
  have hself : Ket.dot v v = 1 := by rw [← Ket.ofReal_normSq, hnorm, Complex.ofReal_one]
  have hshift : Ket.dot v ((m.shift mean).act v) = 0 := by
    rw [dot_act_shift hsquare hsize.symm, hmean, hself, mul_one, sub_self]
  have hcomm : Ket.dot (m.act v) v = mean := by rw [dot_act_comm hm hsize.symm, hmean]
  refine Complex.ofReal_injective ?_
  calc ((Ket.normSq ((m.shift mean).act v) : ℝ) : ℂ)
      = Ket.dot v ((m.shift mean).act ((m.shift mean).act v)) := by
        rw [Ket.ofReal_normSq, dot_act_comm (adjoint_shift_ofReal hm mean) hsize.symm]
    _ = Ket.dot (m.act v) ((m.shift mean).act v) := by
        rw [dot_act_shift hsquare hsize.symm, hshift, mul_zero, sub_zero, dot_act_comm hm hsize.symm]
    _ = Ket.dot (m.act v) (m.act v) - mean * Ket.dot (m.act v) v :=
        dot_act_shift hsquare (size_act m v) v mean
    _ = ((Ket.normSq (m.act v) - mean ^ 2 : ℝ) : ℂ) := by
        rw [hcomm, ← Ket.ofReal_normSq]
        push_cast
        ring

end Hermitian

/-- On an eigenvector the matrix that is shifted by the eigenvalue vanishes. -/
theorem normSq_act_shift_eq_zero (hsquare : m.IsSquare) (hsize : m.rows = v.size) (h : m.act v = v.scale x) :
    (Ket.normSq ((m.shift x).act v) : ℝ) = 0 := by
  have hsquare : m.rows = m.cols := hsquare
  rw [Ket.normSq_eq_sum]
  refine sum_eq_zero fun r hr => ?_
  have hr : r < m.rows := size_act (m.shift x) v ▸ mem_range.mp hr
  rw [getD_act_shift m v x hr (hsquare ▸ hr), h, Ket.getD_scale v x (hsize ▸ hr), mul_comm, sub_self, map_zero]

/-- A matrix that is its own adjoint has a mean and a variance for every ket of its size, and both are real. The variance
    is the squared norm of the matrix minus its mean, acting on the ket. For a ket of norm one it is the mean of the square
    minus the square of the mean, and for an eigenvector with the mean as its eigenvalue it is zero. -/
theorem statistics_of_hermitian (m : Matrix ℂ) (v : Ket ℂ) (hm : m.adjoint = m) (hsize : m.rows = v.size) :
    ∃ mean variance : ℝ, m.mean? v = .ok (mean : ℂ) ∧ m.variance? v = .ok (variance : ℂ) ∧
      (∃ one delta w, identity? v.size = .ok one ∧ m.add? (one.scale (-mean)) = .ok delta ∧ delta.act? v = .ok w ∧
        variance = Ket.normSq w) ∧ 0 ≤ variance ∧
      ((Ket.norm v : ℝ) = 1 → ∃ (square : Matrix ℂ) (x : ℝ), m.mul? m = .ok square ∧ square.mean? v = .ok (x : ℂ) ∧
        variance = x - mean ^ 2) ∧
      (m.act? v = .ok (v.scale mean) → variance = 0) := by
  have hsquare : m.rows = m.cols := isSquare_of_adjoint hm
  obtain ⟨mean, hdot⟩ := exists_dot_act_eq hm hsize.symm
  have hmean : m.mean? v = .ok (mean : ℂ) :=
    mean?_eq_ok.mpr ⟨isHermitian_of_adjoint hm tolerance_nonneg, hsize, hdot⟩
  obtain ⟨one, hone, hadd⟩ := add?_scale_identity hsquare hsize (mean : ℂ)
  refine ⟨mean, _, hmean, variance?_eq_normSq hm hsize hmean,
    ⟨one, _, _, hone, hadd, if_pos (hsquare.symm.trans hsize), rfl⟩, Ket.normSq_nonneg _, fun hnorm => ?_, fun hact => ?_⟩
  · have hnormSq : (Ket.normSq v : ℝ) = 1 := by rw [← Ket.norm_sq, hnorm, one_pow]
    exact ⟨_, _, if_pos hsquare.symm, mean?_mul_self hm hsize, normSq_act_shift hm hsize hdot hnormSq⟩
  · rw [act?, if_pos (hsquare.symm.trans hsize)] at hact
    exact normSq_act_shift_eq_zero hsquare hsize (Except.ok.inj hact)

/-- The projector on a ket of norm one, which is an eigenvector for the eigenvalue one. -/
theorem statistics_of_hermitian_projector :
    let m : Matrix ℂ := ⟨2, 2, #[9 / 25, -(12 / 25 * Complex.I), 12 / 25 * Complex.I, 16 / 25], Nat.two_pos, Nat.two_pos, rfl⟩
    let v : Ket ℂ := #[3 / 5, 4 / 5 * Complex.I]
    (m.adjoint = m ∧ m.rows = v.size ∧ (Ket.norm v : ℝ) = 1 ∧ m.act? v = .ok (v.scale (1 : ℝ))) ∧
      m.mean? v = .ok ((1 : ℝ) : ℂ) ∧ m.variance? v = .ok ((0 : ℝ) : ℂ) ∧
      ∃ square : Matrix ℂ, m.mul? m = .ok square ∧ square.mean? v = .ok ((1 : ℝ) : ℂ) := by
  intro m v
  have hm : m.adjoint = m := by
    refine adjoint_eq_of_entries rfl (forall_lt_two ?_ ?_ ?_ ?_) <;> simp [m, entry]
  have hnormSq : (Ket.normSq v : ℝ) = 1 := by
    rw [Ket.normSq_eq_sum]
    simp [v, sum_range_succ, Complex.normSq_mul]
    norm_num
  have hnorm : (Ket.norm v : ℝ) = 1 := by rw [← Real.sqrt_one, ← hnormSq]; rfl
  have hact : m.act v = v.scale (1 : ℝ) := by
    rw [act_two rfl rfl, Ket.scale_two]
    have hfirst : 9 / 25 * (3 / 5) + -(12 / 25 * Complex.I) * (4 / 5 * Complex.I) = 3 / 5 * ((1 : ℝ) : ℂ) := by
      push_cast
      linear_combination (-48 / 125) * Complex.I_mul_I
    have hsecond : 12 / 25 * Complex.I * (3 / 5) + 16 / 25 * (4 / 5 * Complex.I) = 4 / 5 * Complex.I * ((1 : ℝ) : ℂ) := by
      push_cast
      ring
    exact congrArg₂ (fun p q => #[p, q]) hfirst hsecond
  have hact? : m.act? v = .ok (v.scale (1 : ℝ)) := (if_pos rfl).trans (congrArg Except.ok hact)
  obtain ⟨mean, variance, hmean, hvariance, -, -, hone, hzero⟩ := statistics_of_hermitian m v hm rfl
  have hmean_one : mean = 1 := by
    obtain ⟨-, -, hdot⟩ := mean?_eq_ok.mp hmean
    rw [hact, Ket.dot_scale_right rfl, ← Ket.ofReal_normSq, hnormSq, ← Complex.ofReal_mul] at hdot
    exact (Complex.ofReal_injective hdot).symm.trans (mul_one 1)
  subst hmean_one
  have hvariance_zero := hzero hact?
  subst hvariance_zero
  obtain ⟨square, x, hsquare, hx, hdifference⟩ := hone hnorm
  have hx_one : x = 1 := by linarith
  exact ⟨⟨hm, rfl, hnorm, hact?⟩, hmean, hvariance, square, hsquare, hx_one ▸ hx⟩

end Ketscript.Matrix
