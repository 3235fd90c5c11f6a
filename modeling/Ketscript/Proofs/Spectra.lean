import Ketscript.Binary64.Scalar
import Ketscript.Proofs.Ensembles
import Ketscript.Proofs.Linear.InnerProduct

/-! Which accepted ensembles have an entropy. The eigenvalues of the density operator are read as the probabilities of a
    distribution, so their sum is tested once more. In exact arithmetic they are not negative, and their sum is the mean
    of the squared norms of the qubits. The norms and the sum of the probabilities may each deviate from one by the
    tolerance, and an eigenvalue below the tolerance is read as zero, but the sum of the spectrum may again deviate only
    by the tolerance. So an accepted ensemble can be refused for its spectrum, and is not if the mean of the squared norms
    is one. -/

namespace Ketscript

section Exact
variable {ensemble : List (Emission ℂ ℝ)} {f g : Emission ℂ ℝ → ℝ}

/-! ### Means -/

/-- The sum of a quantity over the qubits, each at its probability. -/
noncomputable def mean (ensemble : List (Emission ℂ ℝ)) (f : Emission ℂ ℝ → ℝ) : ℝ :=
  (ensemble.map fun x => x.probability * f x).sum

/-- The mean of the squared norms, the trace of the density operator. -/
noncomputable def meanNormSq (ensemble : List (Emission ℂ ℝ)) : ℝ := mean ensemble fun x => Ket.normSq x.qubit

theorem mean_add (ensemble : List (Emission ℂ ℝ)) (f g : Emission ℂ ℝ → ℝ) :
    (mean ensemble fun x => f x + g x) = mean ensemble f + mean ensemble g := by
  simp only [mean, mul_add, List.sum_map_add]

theorem mean_const (ensemble : List (Emission ℂ ℝ)) (a : ℝ) :
    (mean ensemble fun _ => a) = total (ensemble.map Emission.outcome) * a := by
  rw [mean, List.sum_map_mul_right, total, ← List.sum_eq_foldl, List.map_map]
  rfl

section Positive
variable (hpos : ∀ x ∈ ensemble, 0 ≤ x.probability)
include hpos

theorem mean_nonneg (hf : ∀ x, 0 ≤ f x) : 0 ≤ mean ensemble f := by
  refine List.sum_nonneg fun y hy => ?_
  obtain ⟨x, hx, rfl⟩ := List.mem_map.mp hy
  exact mul_nonneg (hpos x hx) (hf x)

theorem mean_le_mean (h : ∀ x ∈ ensemble, f x ≤ g x) : mean ensemble f ≤ mean ensemble g :=
  List.sum_le_sum fun x hx => mul_le_mul_of_nonneg_left (h x hx) (hpos x hx)

end Positive

/-! ### Accepted ensembles -/

theorem normSq_qubit (x : Emission ℂ ℝ) : Ket.normSq x.qubit = Complex.normSq x.zero + Complex.normSq x.one := by
  rw [Ket.normSq_eq_sum]
  exact Finset.sum_range_succ _ 1 |>.trans (congrArg (· + _) (Finset.sum_range_one _))

theorem not_deviates_iff_abs {x : ℝ} : ¬Deviates x ↔ |x - 1| ≤ 1 / 10 ^ 9 := by
  rw [Deviates, Matrix.tolerance_eq, RealScalar.ofNat_eq_cast, Nat.cast_one, not_lt]
  rfl

/-- The deviation of the norms counts twice for their squares, and once more that of the sum of the probabilities. -/
theorem meanNormSq_bounds (hpos : ∀ x ∈ ensemble, 0 ≤ x.probability) (h : checkEnsemble ensemble = .ok ()) :
    (1 - 1 / 10 ^ 9) ^ 3 ≤ meanNormSq ensemble ∧ meanNormSq ensemble ≤ (1 + 1 / 10 ^ 9) ^ 3 := by
  obtain ⟨hdistribution, hnorms⟩ := checkEnsemble_eq_ok.mp h
  obtain ⟨-, htotal⟩ := checkDistribution_eq_ok.mp hdistribution
  obtain ⟨hlow, hhigh⟩ := abs_le.mp (not_deviates_iff_abs.mp htotal)
  have hsquares : ∀ x ∈ ensemble, (1 - 1 / 10 ^ 9) ^ 2 ≤ (Ket.normSq x.qubit : ℝ) ∧
      (Ket.normSq x.qubit : ℝ) ≤ (1 + 1 / 10 ^ 9) ^ 2 := by
    intro x hx
    obtain ⟨hlow, hhigh⟩ := abs_le.mp (not_deviates_iff_abs.mp (hnorms x hx))
    rw [← Ket.norm_sq]
    exact ⟨pow_le_pow_left₀ (by norm_num) (by linarith) 2, pow_le_pow_left₀ (by linarith) (by linarith) 2⟩
  constructor
  · calc (1 - 1 / 10 ^ 9 : ℝ) ^ 3
        = (1 - 1 / 10 ^ 9) * (1 - 1 / 10 ^ 9) ^ 2 := by ring
      _ ≤ total (ensemble.map Emission.outcome) * (1 - 1 / 10 ^ 9) ^ 2 := by gcongr; linarith
      _ = mean ensemble fun _ => (1 - 1 / 10 ^ 9) ^ 2 := (mean_const _ _).symm
      _ ≤ meanNormSq ensemble := mean_le_mean hpos fun x hx => (hsquares x hx).1
  · calc meanNormSq ensemble
        ≤ mean ensemble fun _ => (1 + 1 / 10 ^ 9) ^ 2 := mean_le_mean hpos fun x hx => (hsquares x hx).2
      _ = total (ensemble.map Emission.outcome) * (1 + 1 / 10 ^ 9) ^ 2 := mean_const _ _
      _ ≤ (1 + 1 / 10 ^ 9) * (1 + 1 / 10 ^ 9) ^ 2 := by gcongr; linarith
      _ = (1 + 1 / 10 ^ 9) ^ 3 := by ring

/-! ### Density operators -/

theorem Emission.shareEntry_eq (x : Emission ℂ ℝ) (r c : Nat) :
    x.shareEntry r c = x.qubit.getD r 0 * star (x.qubit.getD c 0) * x.probability := by
  rw [shareEntry, Amplitude.ofReal_eq, Amplitude.conj_eq_star]
  split
  · rename_i hzero
    rw [eq_of_beq hzero, zero_mul, zero_mul, zero_mul]
  · rw [zero_add]

/-- The entries of the density operator. -/
noncomputable def densityEntry (ensemble : List (Emission ℂ ℝ)) (r c : Nat) : ℂ :=
  ensemble.foldl (fun sum x => sum + x.shareEntry r c) 0

theorem densityEntry_eq_sum (ensemble : List (Emission ℂ ℝ)) (r c : Nat) :
    densityEntry ensemble r c = (ensemble.map fun x => x.shareEntry r c).sum := by
  rw [densityEntry, List.sum_eq_foldl, List.foldl_map]

/-- The quadratic form of the density operator is a mean of squared moduli. -/
theorem form_eq_mean (ensemble : List (Emission ℂ ℝ)) (p q : ℂ) :
    star p * (densityEntry ensemble 0 0 * p + densityEntry ensemble 0 1 * q) +
        star q * (densityEntry ensemble 1 0 * p + densityEntry ensemble 1 1 * q) =
      (mean ensemble fun x => Complex.normSq (star p * x.zero + star q * x.one) : ℝ) := by
  simp only [densityEntry_eq_sum, mean]
  induction ensemble with
  | nil => simp
  | cons x ensemble ih =>
    have hzero : x.qubit.getD 0 0 = x.zero := rfl
    have hone : x.qubit.getD 1 0 = x.one := rfl
    simp only [List.map_cons, List.sum_cons, Emission.shareEntry_eq, hzero, hone] at ih ⊢
    rw [Complex.ofReal_add, ← ih, Complex.ofReal_mul, ← Complex.mul_conj, ← Complex.star_def, star_add, star_mul',
      star_mul', star_star, star_star]
    ring

theorem eq_two_of_size {v : Ket ℂ} (h : v.size = 2) : ∃ p q, v = #[p, q] := by
  refine ⟨v.getD 0 0, v.getD 1 0, Ket.ext_getD h fun i hi => ?_⟩
  obtain rfl | rfl : i = 0 ∨ i = 1 := by omega
  · rfl
  · rfl

section Positive
variable {rho : Matrix ℂ} (hentries : HasEntries rho (densityEntry ensemble))
include hentries

/-- The diagonal of a density operator holds the means of the squared moduli. -/
theorem diagonal_eq : rho.entry 0 0 = (mean ensemble fun x => Complex.normSq x.zero : ℝ) ∧
    rho.entry 1 1 = (mean ensemble fun x => Complex.normSq x.one : ℝ) := by
  rw [hentries.entry 0 Nat.two_pos 0 Nat.two_pos, hentries.entry 1 Nat.one_lt_two 1 Nat.one_lt_two]
  constructor
  · simpa using form_eq_mean ensemble 1 0
  · simpa using form_eq_mean ensemble 0 1

/-- The trace of a density operator is the mean of the squared norms. -/
theorem trace_eq : rho.entry 0 0 + rho.entry 1 1 = (meanNormSq ensemble : ℂ) := by
  obtain ⟨hfirst, hsecond⟩ := diagonal_eq hentries
  simp only [hfirst, hsecond, meanNormSq, normSq_qubit, mean_add, Complex.ofReal_add]

variable (hpos : ∀ x ∈ ensemble, 0 ≤ x.probability)
include hpos

/-- The eigenvalues of a density operator are not negative: they are the values of the quadratic form at kets of norm
    one. -/
theorem eigenvalue_nonneg {x : ℂ} {v : Ket ℂ} (h : rho.IsEigenpair x v) : ∃ y : ℝ, x = y ∧ 0 ≤ y := by
  obtain ⟨hnorm, hact⟩ := h
  have hsize : rho.cols = v.size := by
    by_contra hsize
    cases (if_neg hsize).symm.trans hact
  obtain ⟨p, q, rfl⟩ := eq_two_of_size (hsize.symm.trans hentries.cols)
  have hone : star p * p + star q * q = 1 := by
    have hsq : (Ket.normSq #[p, q] : ℝ) = 1 := Real.sqrt_eq_one.mp hnorm
    have hdot : Ket.dot #[p, q] #[p, q] = star p * p + star q * q :=
      (Finset.sum_range_succ _ 1).trans (congrArg (· + _) (Finset.sum_range_one _))
    rw [← hdot, ← Ket.ofReal_normSq, hsq, Complex.ofReal_one]
  rw [Matrix.act?, if_pos hsize, Matrix.act_two hentries.rows hentries.cols, Ket.scale_two] at hact
  have hrows := Except.ok.inj hact
  have hform := form_eq_mean ensemble p q
  simp only [Array.mk.injEq, List.cons.injEq, and_true] at hrows
  rw [← hentries.entry 0 Nat.two_pos 0 Nat.two_pos, ← hentries.entry 0 Nat.two_pos 1 Nat.one_lt_two,
    ← hentries.entry 1 Nat.one_lt_two 0 Nat.two_pos, ← hentries.entry 1 Nat.one_lt_two 1 Nat.one_lt_two,
    hrows.1, hrows.2] at hform
  refine ⟨_, ?_, mean_nonneg hpos fun y => Complex.normSq_nonneg (star p * y.zero + star q * y.one)⟩
  rw [← hform]
  linear_combination -x * hone

/-- With any square root both eigenvalues are real and not negative, and their sum is the trace. -/
theorem exists_eigenvaluesBy_nonneg {root : ℂ → ℂ} (hroot : ∀ z, root z ^ 2 = z) : ∃ x y : ℝ,
    rho.eigenvaluesBy root = .ok #[(x : ℂ), (y : ℂ)] ∧ 0 ≤ x ∧ 0 ≤ y ∧ x + y = meanNormSq ensemble := by
  obtain ⟨hfirst, hsecond⟩ := diagonal_eq hentries
  have htrace : rho.entry 0 0 + rho.entry 1 1 = (meanNormSq ensemble : ℂ) := trace_eq hentries
  obtain ⟨x, y, hvalues, ⟨rfl, rfl⟩ | ⟨hdiagonal, hroots⟩⟩ :=
    Matrix.exists_eigenvaluesBy root hentries.rows hentries.cols
  · refine ⟨mean ensemble fun x => Complex.normSq x.zero, mean ensemble fun x => Complex.normSq x.one, ?_,
      mean_nonneg hpos fun x => Complex.normSq_nonneg _, mean_nonneg hpos fun x => Complex.normSq_nonneg _, ?_⟩
    · rw [hvalues, hfirst, hsecond]
    · simp only [meanNormSq, normSq_qubit, mean_add]
  · obtain ⟨x', y', hpair, hsum, hproduct⟩ := Matrix.characteristicRoots_spec hroot (rho.entry 0 0)
      (rho.entry 0 1) (rho.entry 1 0) (rho.entry 1 1)
    obtain ⟨rfl, rfl⟩ := Prod.mk.inj (hroots.trans hpair)
    have hnonneg {x y : ℂ} (hsum : x + y = rho.entry 0 0 + rho.entry 1 1)
        (hproduct : x * y = rho.entry 0 0 * rho.entry 1 1 - rho.entry 0 1 * rho.entry 1 0) :
        ∃ z : ℝ, x = z ∧ 0 ≤ z := by
      obtain ⟨v, -, hv⟩ := Matrix.isEigenpair_kernelVector hentries.rows hentries.cols hdiagonal
        (Matrix.characteristic_eq hsum hproduct)
      exact eigenvalue_nonneg hentries hpos hv
    obtain ⟨a, rfl, ha⟩ := hnonneg hsum hproduct
    obtain ⟨b, rfl, hb⟩ := hnonneg ((add_comm _ _).trans hsum) ((mul_comm _ _).trans hproduct)
    refine ⟨a, b, hvalues, ha, hb, ?_⟩
    exact_mod_cast hsum.trans htrace

theorem exists_eigenvalues_nonneg : ∃ x y : ℝ, rho.eigenvalues? = .ok #[(x : ℂ), (y : ℂ)] ∧ 0 ≤ x ∧ 0 ≤ y ∧
    x + y = meanNormSq ensemble :=
  exists_eigenvaluesBy_nonneg hentries hpos Amplitude.sqrt_sq

end Positive

/-! ### Spectra -/

/-- The part of an eigenvalue that is left out: all of it below the tolerance. -/
noncomputable def leftOut (x : ℝ) : ℝ := if x < RealScalar.tolerance then x else 0

theorem spectralProbability_eq {x : ℝ} (hx : 0 ≤ x) : spectralProbability (x : ℂ) = x - leftOut x := by
  have habs : RealScalar.abs (Amplitude.re (x : ℂ)) = x := abs_of_nonneg hx
  rw [spectralProbability, habs, leftOut]
  split
  · rw [sub_self]
  · rw [sub_zero]
    rfl

theorem total_spectrum {x y : ℝ} (hx : 0 ≤ x) (hy : 0 ≤ y) :
    total (spectrum (x : ℂ) (y : ℂ)) = x + y - (leftOut x + leftOut y) := by
  rw [total]
  show 0 + spectralProbability (x : ℂ) + spectralProbability (y : ℂ) = _
  rw [spectralProbability_eq hx, spectralProbability_eq hy]
  ring

/-- Eigenvalues with a large sum are not both left out. -/
theorem leftOut_bounds {x y : ℝ} (hx : 0 ≤ x) (hy : 0 ≤ y) (h : 2 / 10 ^ 9 ≤ x + y) :
    0 ≤ leftOut x + leftOut y ∧ leftOut x + leftOut y < 1 / 10 ^ 9 := by
  rw [leftOut, leftOut, Matrix.tolerance_eq]
  split <;> split
  · linarith
  · exact ⟨by linarith, by linarith⟩
  · exact ⟨by linarith, by linarith⟩
  · norm_num

end Exact

/-- An ensemble with a density operator has two eigenvalues, and its entropy can only be refused for the sum of the
    spectrum. In exact arithmetic this sum is the mean of the squared norms without an eigenvalue below the tolerance.
    This mean is one up to the third power of the deviation, so the sum can deviate from one by more than the tolerance,
    but not if the mean exceeds one by at most the tolerance, as it does for qubits of norm one. -/
theorem entropy_of_accepted (rounded : List (Emission FloatComplex Float)) (ensemble : List (Emission ℂ ℝ))
    (hpos : ∀ x ∈ ensemble, 0 ≤ x.probability) :
    (∀ rho : Matrix FloatComplex, densityOperator rounded = .ok rho → ∃ x y, rho.eigenvalues? = .ok #[x, y] ∧
      (Deviates (total (spectrum x y)) ∧ vonNeumannEntropy rounded = .error (.sum (total (spectrum x y))) ∨
        ¬Deviates (total (spectrum x y)) ∧ ∃ h, vonNeumannEntropy rounded = .ok h)) ∧
    ∀ rho : Matrix ℂ, densityOperator ensemble = .ok rho →
      (1 - 1 / 10 ^ 9) ^ 3 ≤ meanNormSq ensemble ∧ meanNormSq ensemble ≤ (1 + 1 / 10 ^ 9) ^ 3 ∧
      ∃ x y : ℝ, rho.eigenvalues? = .ok #[(x : ℂ), (y : ℂ)] ∧ 0 ≤ x ∧ 0 ≤ y ∧ x + y = meanNormSq ensemble ∧
        0 ≤ leftOut x + leftOut y ∧ leftOut x + leftOut y < 1 / 10 ^ 9 ∧
        ((∃ h, vonNeumannEntropy ensemble = .ok h) ↔
          |meanNormSq ensemble - (leftOut x + leftOut y) - 1| ≤ 1 / 10 ^ 9) ∧
        (1 ≤ meanNormSq ensemble → meanNormSq ensemble ≤ 1 + 1 / 10 ^ 9 → ∃ h, vonNeumannEntropy ensemble = .ok h) := by
  refine ⟨fun rho hrho => ?_, fun rho hrho => ?_⟩
  · obtain ⟨_, hrho', hentries⟩ := exists_densityOperator (exists_densityOperator_iff.mp ⟨rho, hrho⟩)
    obtain rfl := Except.ok.inj (hrho.symm.trans hrho')
    obtain ⟨x, y, hvalues, -⟩ := Matrix.exists_eigenvalues hentries.rows hentries.cols
    exact ⟨x, y, hvalues, vonNeumannEntropy_cases hrho hvalues⟩
  · have hcheck := exists_densityOperator_iff.mp ⟨rho, hrho⟩
    obtain ⟨_, hrho', hentries⟩ := exists_densityOperator hcheck
    obtain rfl := Except.ok.inj (hrho.symm.trans hrho')
    obtain ⟨hlow, hhigh⟩ := meanNormSq_bounds hpos hcheck
    obtain ⟨x, y, hvalues, hx, hy, hsum⟩ := exists_eigenvalues_nonneg hentries hpos
    obtain ⟨hleft, hleft'⟩ := leftOut_bounds hx hy (by linarith)
    have hentropy : (∃ h, vonNeumannEntropy ensemble = .ok h) ↔
        |meanNormSq ensemble - (leftOut x + leftOut y) - 1| ≤ 1 / 10 ^ 9 := by
      rw [← hsum, ← total_spectrum hx hy, ← not_deviates_iff_abs, vonNeumannEntropy_eq hrho hvalues,
        exists_shannonEntropy, checkDistribution_eq_ok]
      exact and_iff_right (distinct_spectrum _ _)
    refine ⟨hlow, hhigh, x, y, hvalues, hx, hy, hsum, hleft, hleft', hentropy, fun hone hle => hentropy.mpr ?_⟩
    exact abs_le.mpr ⟨by linarith, by linarith⟩

/-- A fair coin, as qubits of norm one. -/
theorem entropy_of_accepted_coin :
    let rounded : List (Emission FloatComplex Float) :=
      [⟨"heads", ⟨1.0, 0.0⟩, ⟨0.0, 0.0⟩, 0.5⟩, ⟨"tails", ⟨0.0, 0.0⟩, ⟨0.0, 1.0⟩, 0.5⟩]
    let ensemble : List (Emission ℂ ℝ) := [⟨"heads", 1, 0, 1 / 2⟩, ⟨"tails", 0, Complex.I, 1 / 2⟩]
    ((∃ rho, densityOperator rounded = .ok rho) ∧ (∀ x ∈ ensemble, 0 ≤ x.probability) ∧
      (∃ rho, densityOperator ensemble = .ok rho) ∧ meanNormSq ensemble = 1) ∧
      (∃ h, vonNeumannEntropy rounded = .ok h) ∧ ∃ h, vonNeumannEntropy ensemble = .ok h := by
  intro rounded ensemble
  have hrounded : ∃ rho, densityOperator rounded = .ok rho := exists_densityOperator_iff.mpr (by decide +kernel)
  have hpos : ∀ x ∈ ensemble, 0 ≤ x.probability := by simp [ensemble]
  have hmean : meanNormSq ensemble = 1 := by
    simp only [ensemble, meanNormSq, mean, normSq_qubit, List.map_cons, List.map_nil, List.sum_cons, List.sum_nil,
      Complex.normSq_one, Complex.normSq_zero, Complex.normSq_I]
    norm_num
  have haccepted : ∃ rho, densityOperator ensemble = .ok rho := by
    have htotal : total (ensemble.map Emission.outcome) = 1 := by
      show (0 + 1 / 2 + 1 / 2 : ℝ) = 1
      norm_num
    have hnorm : ∀ x ∈ ensemble, (Ket.norm x.qubit : ℝ) = 1 := by
      refine fun x hx => Real.sqrt_eq_one.mpr ?_
      rw [normSq_qubit]
      rcases List.mem_pair.mp hx with rfl | rfl <;> simp
    refine exists_densityOperator_iff.mpr (checkEnsemble_eq_ok.mpr ⟨checkDistribution_eq_ok.mpr ⟨?_, ?_⟩, fun x hx => ?_⟩)
    · simp [Distinct, ensemble, Emission.outcome]
    · simp [not_deviates_iff_abs, htotal]
    · simp [not_deviates_iff_abs, hnorm x hx]
  obtain ⟨hbinary, hexact⟩ := entropy_of_accepted rounded ensemble hpos
  refine ⟨⟨hrounded, hpos, haccepted, hmean⟩, ?_, ?_⟩
  · obtain ⟨rho, hrho⟩ := hrounded
    obtain ⟨x, y, -, ⟨-, herror⟩ | ⟨-, hentropy⟩⟩ := hbinary rho hrho
    · have hok : (vonNeumannEntropy rounded).toBool = true := by decide +kernel
      rw [herror] at hok
      cases hok
    · exact hentropy
  · obtain ⟨rho, hrho⟩ := haccepted
    obtain ⟨-, -, x, y, -, -, -, -, -, -, -, hone⟩ := hexact rho hrho
    exact hone hmean.ge (by rw [hmean]; norm_num)

/-- A single qubit with a norm of `1 + 9 / 10 ^ 10` is accepted, but the square of this norm is above the tolerance. -/
theorem accepted_without_entropy :
    let ensemble : List (Emission FloatComplex Float) := [⟨"a", ⟨1.0000000009, 0.0⟩, ⟨0.0, 0.0⟩, 1.0⟩]
    (∀ x ∈ ensemble, 0.0 ≤ x.probability) ∧ (∃ rho, densityOperator ensemble = .ok rho) ∧
      ∃ sum, vonNeumannEntropy ensemble = .error (.sum sum) ∧ ¬∃ h, vonNeumannEntropy ensemble = .ok h := by
  intro ensemble
  have herror : vonNeumannEntropy ensemble = .error (.sum (1.0000000009 * 1.0000000009)) := by decide +kernel
  exact ⟨by decide +kernel, exists_densityOperator_iff.mpr (by decide +kernel), _, herror, by simp [herror]⟩

end Ketscript
