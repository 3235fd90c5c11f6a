import Ketscript.Linear.Eigen
import Ketscript.Proofs.Linear.Exact

/-! Eigenpairs in exact arithmetic. The two characteristic roots of a matrix that is two by two have its trace as their
    sum and its determinant as their product, whatever root of the discriminant was taken. The vector that is read off
    for such a root is in the kernel, one row because it was made so and the other because of the characteristic
    equation, and it is not zero: either its first entry or its second one is an entry of the matrix outside the diagonal,
    and the row is chosen such that this entry is larger than the tolerance. A diagonal matrix may have entries up to the
    tolerance outside its diagonal, so the basis states are eigenvectors up to that. -/

namespace Ketscript
open Finset

/-! ### Amplitudes -/

namespace Amplitude

theorem norm_eq (z : ℂ) : norm z = ‖z‖ := (Complex.norm_eq_sqrt_sq_add_sq z).symm

theorem mulReal_eq (z : ℂ) (x : ℝ) : mulReal z x = z * x :=
  Complex.ext (Complex.re_mul_ofReal z x).symm (Complex.im_mul_ofReal z x).symm

theorem divReal_eq (z : ℂ) (x : ℝ) : divReal z x = z / x :=
  Complex.ext (Complex.div_ofReal_re z x).symm (Complex.div_ofReal_im z x).symm

theorem ofPolar_eq (r angle : ℝ) : (ofPolar r angle : ℂ) = r * Complex.exp (angle * Complex.I) := by
  apply Complex.ext
  · rw [Complex.re_ofReal_mul, Complex.exp_ofReal_mul_I_re]
    rfl
  · rw [Complex.im_ofReal_mul, Complex.exp_ofReal_mul_I_im]
    rfl

theorem ofParts_sq {a b : ℝ} {z : ℂ} (hre : a * a - b * b = z.re) (him : 2 * (a * b) = z.im) :
    (ofParts a b : ℂ) ^ 2 = z := by
  apply Complex.ext
  · rw [pow_two, Complex.mul_re]
    exact hre
  · rw [pow_two, Complex.mul_im, ← him]
    show a * b + b * a = _
    ring

theorem hasPlusSign_iff {x : ℝ} : RealScalar.hasPlusSign x = true ↔ 0 ≤ x := decide_eq_true_iff

/-- In exact arithmetic every way to take a square root gives one. -/
theorem sqrt_sq (z : ℂ) : (sqrt z : ℂ) ^ 2 = z := by
  have hre : re z = z.re := rfl
  have him : im z = z.im := rfl
  have habs : RealScalar.abs z.im = |z.im| := rfl
  have hroot (x : ℝ) : RealScalar.sqrt x = Real.sqrt x := rfl
  simp only [sqrt, RealScalar.withSign, hasPlusSign_iff, beq_iff_eq, hre, him, habs, hroot, RealScalar.ofNat_eq_cast]
  split
  · rename_i hreal
    rw [hreal, if_pos le_rfl]
    split
    · rename_i hpos
      refine ofParts_sq ?_ ?_
      · rw [Real.mul_self_sqrt hpos, mul_zero, sub_zero]
      · rw [mul_zero, mul_zero, hreal]
    · rename_i hneg
      refine ofParts_sq ?_ ?_
      · rw [Real.mul_self_sqrt (by linarith), mul_zero, zero_sub, neg_neg]
      · rw [zero_mul, mul_zero, hreal]
  · split
    · rename_i himaginary
      have hhalf : Real.sqrt (|z.im| / (2 : ℕ)) * Real.sqrt (|z.im| / (2 : ℕ)) = |z.im| / 2 :=
        Real.mul_self_sqrt (by positivity)
      split
      · rename_i hpos
        refine ofParts_sq ?_ ?_
        · rw [sub_self, himaginary]
        · rw [hhalf, abs_of_nonneg hpos]
          ring
      · rename_i hneg
        refine ofParts_sq ?_ ?_
        · rw [neg_mul_neg, sub_self, himaginary]
        · rw [mul_neg, hhalf, abs_of_neg (not_le.mp hneg)]
          ring
    · have hangle : (RealScalar.atan2 z.im z.re : ℝ) = z.arg := rfl
      have hmodulus : ((Real.sqrt ‖z‖ : ℝ) : ℂ) ^ 2 = ‖z‖ := by
        rw [← Complex.ofReal_pow, Real.sq_sqrt (norm_nonneg z)]
      rw [hangle, norm_eq, ofPolar_eq, mul_pow, hmodulus, ← Complex.exp_nat_mul]
      have hdouble : ((2 : ℕ) : ℂ) * (((z.arg / (2 : ℕ) : ℝ) : ℂ) * Complex.I) = z.arg * Complex.I := by
        push_cast
        ring
      rw [hdouble, Complex.norm_mul_exp_arg_mul_I]

end Amplitude

/-! ### Kets -/

namespace Ket
variable {v : Ket ℂ}

theorem size_scale (v : Ket ℂ) (x : ℂ) : (v.scale x).size = v.size := Array.size_map

theorem getD_scale (v : Ket ℂ) (x : ℂ) {i : Nat} (hi : i < v.size) : (v.scale x).getD i 0 = v.getD i 0 * x := by
  rw [scale, Array.getD_eq_getD_getElem?, Array.getD_eq_getD_getElem?, Array.getElem?_map, Array.getElem?_eq_getElem hi]
  rfl

theorem scale_two (p q x : ℂ) : scale #[p, q] x = #[p * x, q * x] := by simp [scale]

theorem scale_comm (v : Ket ℂ) (x y : ℂ) : (v.scale x).scale y = (v.scale y).scale x := by
  simp [scale, mul_comm x y]

theorem normSq_scale (v : Ket ℂ) (x : ℂ) : normSq (v.scale x) = normSq v * Complex.normSq x := by
  rw [normSq_eq_sum, normSq_eq_sum, size_scale, sum_mul]
  exact sum_congr rfl fun i hi => by rw [getD_scale v x (mem_range.mp hi), Complex.normSq_mul]

theorem normSq_pos {i : Nat} (hi : i < v.size) (h : v.getD i 0 ≠ 0) : 0 < normSq v := by
  rw [normSq_eq_sum]
  exact sum_pos' (fun j _ => Complex.normSq_nonneg _) ⟨i, mem_range.mpr hi, Complex.normSq_pos.mpr h⟩

/-- A ket that is not zero can be taken at norm one. -/
theorem normalize?_eq_ok (h : 0 < normSq v) :
    ∃ x, v.normalize? = .ok (v.scale x) ∧ norm (v.scale x) = 1 := by
  have hnorm : 0 < norm v := Real.sqrt_pos.mpr h
  have hsq : norm v * norm v = normSq v := Real.mul_self_sqrt h.le
  refine ⟨((norm v)⁻¹ : ℝ), ?_, ?_⟩
  · have hmap : (fun z => Amplitude.divReal z (norm v)) = fun z : ℂ => z * ((norm v)⁻¹ : ℝ) := by
      funext z
      rw [Amplitude.divReal_eq, Complex.ofReal_inv, div_eq_mul_inv]
    have hne : (norm v == 0) = false := beq_eq_false_iff_ne.mpr hnorm.ne'
    rw [normalize?, hmap]
    exact if_neg (hne ▸ Bool.false_ne_true)
  · have hone : normSq (v.scale ((norm v)⁻¹ : ℝ)) = 1 := by
      rw [normSq_scale, Complex.normSq_ofReal, ← hsq]
      field_simp
    show Real.sqrt _ = 1
    rw [hone, Real.sqrt_one]

end Ket

namespace Matrix

/-! ### Eigenvalues -/

section Eigenvalues
variable {K R : Type} [RealScalar R] [Amplitude K R] [Zero K] {m : Matrix K}

theorem eigenSize?_two (hrows : m.rows = 2) (hcols : m.cols = 2) : m.eigenSize? = .ok 2 := by
  simp [eigenSize?, dimension?, IsSquare, hrows, hcols, bind, Except.bind]

theorem eigenSize?_diagonal (hsquare : m.IsSquare) (h : m.isDiagonal = true) : m.eigenSize? = .ok m.rows := by
  simp [eigenSize?, dimension?, hsquare, h, bind, Except.bind]

variable [Add K] [Sub K] [Mul K]

theorem eigenvaluesBy_diagonal (root : K → K) (hsquare : m.IsSquare) (h : m.isDiagonal = true) :
    m.eigenvaluesBy root = .ok (Array.ofFn fun i : Fin m.rows => m.entry i i) := by
  rw [eigenvaluesBy, eigenSize?_diagonal hsquare h]
  exact if_pos h

theorem eigenvaluesBy_two (root : K → K) (hrows : m.rows = 2) (hcols : m.cols = 2) (h : m.isDiagonal = false) :
    m.eigenvaluesBy root =
      let (x, y) := characteristicRoots root (m.entry 0 0) (m.entry 0 1) (m.entry 1 0) (m.entry 1 1)
      .ok #[x, y] := by
  rw [eigenvaluesBy, eigenSize?_two hrows hcols, h]
  rfl

end Eigenvalues

section Exact
variable {m : Matrix ℂ} {x : ℂ} {v : Ket ℂ}

theorem act_scale (m : Matrix ℂ) (hv : m.cols = v.size) (x : ℂ) : m.act (v.scale x) = (m.act v).scale x := by
  refine Ket.ext_getD (by rw [Ket.size_scale, size_act, size_act]) fun r hr => ?_
  rw [size_act] at hr
  rw [Ket.getD_scale _ x (by rwa [size_act]), getD_act m _ hr, getD_act m v hr, sum_mul]
  exact sum_congr rfl fun k hk => by rw [Ket.getD_scale v x (hv ▸ mem_range.mp hk), mul_assoc]

/-- A basis state picks out a column. -/
theorem getD_act_basis (m : Matrix ℂ) {r i : Nat} (hr : r < m.rows) (hi : i < m.cols) :
    (m.act (Ket.basis m.cols i)).getD r 0 = m.entry r i := by
  rw [getD_act m _ hr, sum_eq_single i]
  · rw [Ket.getD_basis hi, if_pos rfl, mul_one]
  · intro k hk hne
    rw [Ket.getD_basis (mem_range.mp hk), if_neg hne, mul_zero]
  · intro hi'
    exact absurd (mem_range.mpr hi) hi'

theorem act_two (hrows : m.rows = 2) (hcols : m.cols = 2) (p q : ℂ) :
    m.act #[p, q] = #[m.entry 0 0 * p + m.entry 0 1 * q, m.entry 1 0 * p + m.entry 1 1 * q] := by
  refine Ket.ext_getD (by rw [size_act, hrows]; rfl) fun r hr => ?_
  rw [size_act] at hr
  rw [getD_act m _ hr, hcols, sum_range_succ, sum_range_one]
  obtain rfl | rfl : r = 0 ∨ r = 1 := by omega
  · rfl
  · rfl

/-! ### Eigenpairs -/

/-- A ket of norm one that the matrix multiplies by a number. -/
structure IsEigenpair (m : Matrix ℂ) (x : ℂ) (v : Ket ℂ) : Prop where
  norm_eq_one : Ket.norm v = 1
  act?_eq : m.act? v = .ok (v.scale x)

/-- The matrix multiplies a ket by a number, but for a deviation of each entry by at most the tolerance of `10 ^ -9`. -/
def IsNearEigenpair (m : Matrix ℂ) (x : ℂ) (v : Ket ℂ) : Prop :=
  ∃ w, m.act? v = .ok w ∧ w.size = m.rows ∧
    ∀ r < m.rows, ‖w.getD r 0 - x * v.getD r 0‖ ≤ (RealScalar.tolerance : ℝ)

theorem characteristicRoots_spec {root : ℂ → ℂ} (hroot : ∀ z, root z ^ 2 = z) (a b c d : ℂ) :
    ∃ x y, characteristicRoots root a b c d = (x, y) ∧ x + y = a + d ∧ x * y = a * d - b * c := by
  have hsq := hroot ((a + d) * (a + d) - Amplitude.mulReal (a * d - b * c) (RealScalar.ofNat 4))
  refine ⟨_, _, rfl, ?_⟩
  generalize root _ = r at *
  simp only [Amplitude.mulReal_eq, Amplitude.divReal_eq, RealScalar.ofNat_eq_cast] at *
  push_cast at *
  constructor
  · ring
  · linear_combination (-1 / 4) * hsq

/-- A number is a root of the characteristic polynomial if with another one it has the sum and the product of both. -/
theorem characteristic_eq {a b c d x y : ℂ} (hsum : x + y = a + d) (hproduct : x * y = a * d - b * c) :
    (x - a) * (x - d) = b * c := by
  linear_combination x * hsum - hproduct

/-- The vector that is read off is in the kernel of `m - x`. -/
theorem act_kernelVector (hrows : m.rows = 2) (hcols : m.cols = 2)
    (hx : (x - m.entry 0 0) * (x - m.entry 1 1) = m.entry 0 1 * m.entry 1 0) :
    m.act (m.kernelVector x) = (m.kernelVector x).scale x := by
  unfold kernelVector
  split
  · have hfirst : m.entry 0 0 * m.entry 0 1 + m.entry 0 1 * (x - m.entry 0 0) = m.entry 0 1 * x := by ring
    have hsecond : m.entry 1 0 * m.entry 0 1 + m.entry 1 1 * (x - m.entry 0 0) = (x - m.entry 0 0) * x := by
      linear_combination -hx
    rw [act_two hrows hcols, Ket.scale_two, hfirst, hsecond]
  · have hfirst : m.entry 0 0 * (x - m.entry 1 1) + m.entry 0 1 * m.entry 1 0 = (x - m.entry 1 1) * x := by
      linear_combination -hx
    have hsecond : m.entry 1 0 * (x - m.entry 1 1) + m.entry 1 1 * m.entry 1 0 = m.entry 1 0 * x := by ring
    rw [act_two hrows hcols, Ket.scale_two, hfirst, hsecond]

theorem all_iff {n : Nat} {f : (i : Nat) → i < n → Bool} : n.all f = true ↔ ∀ i h, f i h = true := by
  rw [Nat.all_eq_finRange_all, List.all_eq_true]
  exact ⟨fun h i hi => h ⟨i, hi⟩ (List.mem_finRange _), fun h i _ => h i.1 i.2⟩

theorem tolerance_eq : (RealScalar.tolerance : ℝ) = 1 / 10 ^ 9 := by
  show ((1 : ℕ) : ℝ) / 10 ^ 9 = _
  rw [Nat.cast_one]

/-- The threshold on the squared modulus is one on the modulus. -/
theorem normSq_le_iff (z : ℂ) :
    Amplitude.normSq z ≤ (RealScalar.tolerance * RealScalar.tolerance : ℝ) ↔ ‖z‖ ≤ 1 / 10 ^ 9 := by
  have hsq : Amplitude.normSq z = ‖z‖ * ‖z‖ := (Complex.normSq_eq_norm_sq z).trans (pow_two _)
  rw [hsq, tolerance_eq]
  exact mul_self_le_mul_self_iff (norm_nonneg z) (by positivity) |>.symm

theorem isDiagonal_iff (m : Matrix ℂ) : m.isDiagonal = true ↔
    m.IsSquare ∧ ∀ r < m.rows, ∀ c < m.cols, r ≠ c → ‖m.entry r c‖ ≤ 1 / 10 ^ 9 := by
  simp only [isDiagonal, Bool.and_eq_true, decide_eq_true_iff, all_iff, Bool.or_eq_true, beq_iff_eq, normSq_le_iff,
    ← or_iff_not_imp_left, ne_eq]

/-- The vector that is read off is not zero: one entry of a matrix that is not diagonal is larger than the tolerance. -/
theorem normSq_kernelVector_pos (hrows : m.rows = 2) (hcols : m.cols = 2) (hdiagonal : m.isDiagonal = false) (x : ℂ) :
    0 < Ket.normSq (m.kernelVector x) := by
  unfold kernelVector
  rw [Amplitude.norm_eq, tolerance_eq]
  split
  · rename_i hlarge
    have hne : m.entry 0 1 ≠ 0 := fun hzero => by
      rw [hzero, norm_zero] at hlarge
      norm_num at hlarge
    exact Ket.normSq_pos (i := 0) Nat.two_pos hne
  · rename_i hsmall
    have hne : m.entry 1 0 ≠ 0 := fun hzero => by
      refine Bool.eq_false_iff.mp hdiagonal ((isDiagonal_iff m).mpr ⟨hrows.trans hcols.symm, fun r hr c hc hrc => ?_⟩)
      rw [hrows] at hr
      rw [hcols] at hc
      obtain ⟨rfl, rfl⟩ | ⟨rfl, rfl⟩ : (r = 0 ∧ c = 1) ∨ (r = 1 ∧ c = 0) := by omega
      · exact not_lt.mp hsmall
      · rw [hzero, norm_zero]
        positivity
    exact Ket.normSq_pos (i := 1) Nat.one_lt_two hne

/-- The vector that is read off for a characteristic root, at norm one. -/
theorem isEigenpair_kernelVector (hrows : m.rows = 2) (hcols : m.cols = 2) (hdiagonal : m.isDiagonal = false)
    (hx : (x - m.entry 0 0) * (x - m.entry 1 1) = m.entry 0 1 * m.entry 1 0) :
    ∃ v, Ket.normalize? (m.kernelVector x) = .ok v ∧ m.IsEigenpair x v := by
  obtain ⟨y, hnormalize, hnorm⟩ := Ket.normalize?_eq_ok (normSq_kernelVector_pos hrows hcols hdiagonal x)
  have hsize : (m.kernelVector x).size = m.cols := by
    rw [kernelVector, hcols]
    split <;> rfl
  refine ⟨_, hnormalize, hnorm, ?_⟩
  rw [act?, if_pos (by rw [Ket.size_scale, hsize]), act_scale m hsize.symm, act_kernelVector hrows hcols hx,
    Ket.scale_comm]

theorem mapM_two {ε α β : Type} {f : α → Except ε β} {a b : α} {c d : β} (ha : f a = .ok c) (hb : f b = .ok d) :
    #[a, b].mapM f = .ok #[c, d] := by
  simp [ha, hb, bind, Except.bind, pure, Except.pure, Functor.map, Except.map]

/-! ### Diagonal matrices -/

theorem isNearEigenpair_basis (h : m.isDiagonal = true) {i : Nat} (hi : i < m.rows) :
    m.IsNearEigenpair (m.entry i i) (Ket.basis m.rows i) := by
  obtain ⟨hsquare, hsmall⟩ := (isDiagonal_iff m).mp h
  have hsquare : m.rows = m.cols := hsquare
  refine ⟨m.act (Ket.basis m.rows i), if_pos (by rw [Ket.size_basis, hsquare]), size_act _ _, fun r hr => ?_⟩
  rw [hsquare, getD_act_basis m hr (hsquare ▸ hi), Ket.getD_basis (hsquare ▸ hr), tolerance_eq]
  split
  · rename_i hri
    rw [hri, mul_one, sub_self, norm_zero]
    positivity
  · rename_i hri
    rw [mul_zero, sub_zero]
    exact hsmall r hr i (hsquare ▸ hi) hri

/-- A matrix that is two by two and not diagonal has the characteristic roots as its eigenvalues, and for each of them a
    ket of norm one that it multiplies by this root, also if both are one. The basis states are eigenvectors of a diagonal
    matrix of any size, for the entries of the diagonal and up to the tolerance. -/
theorem eigenpairs (root : ℂ → ℂ) (hroot : ∀ z, root z ^ 2 = z) (m : Matrix ℂ) :
    (m.rows = 2 → m.cols = 2 → m.isDiagonal = false → ∃ x y v w,
      m.eigenvaluesBy root = .ok #[x, y] ∧ x + y = m.entry 0 0 + m.entry 1 1 ∧
      x * y = m.entry 0 0 * m.entry 1 1 - m.entry 0 1 * m.entry 1 0 ∧
      m.eigenvectorsBy root = .ok #[v, w] ∧ m.IsEigenpair x v ∧ m.IsEigenpair y w) ∧
    (m.isDiagonal = true → ∃ values vectors,
      m.eigenvaluesBy root = .ok values ∧ m.eigenvectorsBy root = .ok vectors ∧
      values.size = m.rows ∧ vectors.size = m.rows ∧
      ∀ (i : Nat) x v, values[i]? = some x → vectors[i]? = some v → m.IsNearEigenpair x v) := by
  refine ⟨fun hrows hcols hdiagonal => ?_, fun hdiagonal => ?_⟩
  · obtain ⟨x, y, hroots, hsum, hproduct⟩ :=
      characteristicRoots_spec hroot (m.entry 0 0) (m.entry 0 1) (m.entry 1 0) (m.entry 1 1)
    have hvalues : m.eigenvaluesBy root = .ok #[x, y] := by rw [eigenvaluesBy_two root hrows hcols hdiagonal, hroots]
    obtain ⟨v, hv, hxv⟩ := isEigenpair_kernelVector hrows hcols hdiagonal (characteristic_eq hsum hproduct)
    obtain ⟨w, hw, hyw⟩ := isEigenpair_kernelVector hrows hcols hdiagonal
      (characteristic_eq ((add_comm y x).trans hsum) ((mul_comm y x).trans hproduct))
    refine ⟨x, y, v, w, hvalues, hsum, hproduct, ?_, hxv, hyw⟩
    rw [eigenvectorsBy, eigenSize?_two hrows hcols, hdiagonal, hvalues]
    exact mapM_two hv hw
  · have hsquare : m.IsSquare := ((isDiagonal_iff m).mp hdiagonal).1
    have hvectors : m.eigenvectorsBy root = .ok (Array.ofFn fun i : Fin m.rows => Ket.basis m.rows i) := by
      rw [eigenvectorsBy, eigenSize?_diagonal hsquare hdiagonal]
      exact if_pos hdiagonal
    refine ⟨_, _, eigenvaluesBy_diagonal root hsquare hdiagonal, hvectors, Array.size_ofFn, Array.size_ofFn,
      fun i x v hx hv => ?_⟩
    rw [Array.getElem?_ofFn, Option.dite_none_right_eq_some] at hx hv
    obtain ⟨hi, hx⟩ := hx
    obtain ⟨_, hv⟩ := hv
    obtain rfl := Option.some.inj hx
    obtain rfl := Option.some.inj hv
    exact isNearEigenpair_basis hdiagonal hi

/-- A matrix with one eigenvalue and no second eigenvector, and one that is diagonal up to the tolerance. -/
theorem eigenpairs_defective :
    let m : Matrix ℂ := ⟨2, 2, #[1, 0, 1, 1], Nat.two_pos, Nat.two_pos, rfl⟩
    let d : Matrix ℂ := ⟨2, 2, #[1, 1 / 10 ^ 9, 0, 2], Nat.two_pos, Nat.two_pos, rfl⟩
    ((∀ z : ℂ, Amplitude.sqrt z ^ 2 = z) ∧ m.rows = 2 ∧ m.cols = 2 ∧ m.isDiagonal = false ∧ d.isDiagonal = true) ∧
      (∃ v w, m.eigenvalues? = .ok #[1, 1] ∧ m.eigenvectors? = .ok #[v, w] ∧ m.IsEigenpair 1 v ∧ m.IsEigenpair 1 w) ∧
      ∃ values vectors, d.eigenvalues? = .ok values ∧ d.eigenvectors? = .ok vectors ∧
        ∀ (i : Nat) x v, values[i]? = some x → vectors[i]? = some v → d.IsNearEigenpair x v := by
  intro m d
  have hm : m.isDiagonal = false := by
    refine Bool.eq_false_iff.mpr fun h => ?_
    have hone : ‖(1 : ℂ)‖ ≤ 1 / 10 ^ 9 := ((isDiagonal_iff m).mp h).2 1 Nat.one_lt_two 0 Nat.two_pos Nat.one_ne_zero
    norm_num at hone
  have hd : d.isDiagonal = true := by
    refine (isDiagonal_iff d).mpr ⟨rfl, fun r hr c hc hrc => ?_⟩
    have hr : r < 2 := hr
    have hc : c < 2 := hc
    obtain ⟨rfl, rfl⟩ | ⟨rfl, rfl⟩ : (r = 0 ∧ c = 1) ∨ (r = 1 ∧ c = 0) := by omega
    · show ‖(1 / 10 ^ 9 : ℂ)‖ ≤ _
      simp
    · show ‖(0 : ℂ)‖ ≤ _
      simp
  obtain ⟨htwo, -⟩ := eigenpairs Amplitude.sqrt Amplitude.sqrt_sq m
  obtain ⟨-, hdiagonal⟩ := eigenpairs Amplitude.sqrt Amplitude.sqrt_sq d
  obtain ⟨x, y, v, w, hvalues, hsum, hproduct, hvectors, hxv, hyw⟩ := htwo rfl rfl hm
  obtain ⟨values, vectors, hdvalues, hdvectors, -, -, hnear⟩ := hdiagonal hd
  have hsum : x + y = 1 + 1 := hsum
  have hproduct : x * y = 1 * 1 - 0 * 1 := hproduct
  have hsquare : (x - 1) ^ 2 = 0 := by linear_combination x * hsum - hproduct
  have hx : x = 1 := sub_eq_zero.mp (pow_eq_zero_iff two_ne_zero |>.mp hsquare)
  have hy : y = 1 := by linear_combination hsum - hx
  subst hx hy
  exact ⟨⟨Amplitude.sqrt_sq, rfl, rfl, hm, hd⟩, ⟨v, w, hvalues, hvectors, hxv, hyw⟩,
    values, vectors, hdvalues, hdvectors, hnear⟩

end Exact

end Matrix
end Ketscript
