import Ketscript.Proofs.Distributions
import Ketscript.Proofs.ZeroNorms

/-! What the checks make of entries that are not numbers. The check for norm one and those of distributions and
    ensembles refuse a deviation above the tolerance, so they let such entries pass: no comparison with them succeeds.
    The checks for unitary and for hermitian matrices accept a deviation up to the tolerance, so they refuse them. Sums,
    norms and products carry a single such entry to the comparison, whatever the other entries are. -/

namespace Ketscript
open Binary64

variable {z w : FloatComplex} {pdf : List (Outcome Float)} {ensemble : List (Emission FloatComplex Float)}

/-- A part of an entry is not a number. -/
def Matrix.HasNaN (m : Matrix FloatComplex) : Prop :=
  ∃ r < m.rows, ∃ c < m.cols, (m.entry r c).re.isNaN ∨ (m.entry r c).im.isNaN

/-- The probability is not a number, or a part of an amplitude is not. -/
def Emission.HasNaN (x : Emission FloatComplex Float) : Prop := x.probability.isNaN ∨ Ket.HasNaN x.qubit

/-! ### Amplitudes -/

theorem FloatComplex.isNaN_mul_conj (h : z.re.isNaN ∨ z.im.isNaN) : (z * Amplitude.conj z).re.isNaN := by
  show (z.re * z.re - z.im * -z.im).isNaN
  exact isNaN_sub (h.imp (fun hre => isNaN_mul (.inl hre)) fun him => isNaN_mul (.inl him))

theorem FloatComplex.not_beq_zero (h : z.re.isNaN ∨ z.im.isNaN) : ¬(z == 0) = true := by
  show ¬(z.re == 0.0 && z.im == 0.0) = true
  rw [Bool.and_eq_true]
  rintro ⟨hre, him⟩
  exact h.elim (not_isNaN_of_isFinite (isFinite_of_beq_zero hre)) (not_isNaN_of_isFinite (isFinite_of_beq_zero him))

theorem FloatComplex.re_add (z w : FloatComplex) : (z + w).re = z.re + w.re := rfl

/-! ### Kets -/

section Kets
variable {v : Ket FloatComplex}

theorem Ket.checkNormalized_eq_ok {t : Float} (ht : ¬t.isNaN) :
    v.checkNormalized t = .ok () ↔ v.HasNaN ∨ (normSq v - 1.0).abs ≤ t := by
  have hcheck : v.checkNormalized t = .ok () ↔ ¬t < (normSq v - 1.0).abs := by
    rw [checkNormalized, ofNat_one]
    show (if t < (normSq v - 1.0).abs then _ else _) = _ ↔ _
    split <;> simp [*]
  rw [hcheck, not_lt_iff, or_iff_right ht, isNaN_abs_iff, isNaN_sub_one_iff, hasNaN_iff]

theorem Ket.not_deviates_norm :
    ¬Deviates (norm v : Float) ↔ v.HasNaN ∨ (norm v - 1.0).abs ≤ RealScalar.tolerance := by
  have hnorm : (norm v : Float).isNaN ↔ (normSq v : Float).isNaN := isNaN_sqrt_iff (not_normSq_neg_ket v)
  rw [not_deviates_iff, hnorm, hasNaN_iff]

end Kets

/-! ### Matrices -/

section Matrices

variable {m : Matrix FloatComplex} {t : Float}

theorem Matrix.not_near_of_isNaN (h : z.re.isNaN ∨ z.im.isNaN) : ¬near t z w = true := by
  show ¬(decide ((z.re - w.re).abs ≤ t) && decide ((z.im - w.im).abs ≤ t)) = true
  rw [Bool.and_eq_true, decide_eq_true_iff, decide_eq_true_iff]
  rintro ⟨hre, him⟩
  have hdifference {x y : Float} (hx : x.isNaN) : ¬(x - y).abs ≤ t :=
    not_le_of_isNaN (.inl (isNaN_abs_iff.mpr (isNaN_sub (.inl hx))))
  exact h.elim (fun h => hdifference h hre) fun h => hdifference h him

/-- A row times its conjugate adds up the squared moduli of the entries that are not zero. -/
theorem Matrix.isNaN_mul_adjoint {r c : Nat} (hr : r < m.rows) (hc : c < m.cols)
    (h : (m.entry r c).re.isNaN ∨ (m.entry r c).im.isNaN) : ((m.mul m.adjoint).entry r r).re.isNaN := by
  rw [entry_mul_eq_fold (a := m) (b := m.adjoint) rfl hr hr, Nat.fold_eq_finRange_foldl]
  refine foldl_of_mem (P := fun sum : FloatComplex => sum.re.isNaN) (List.mem_finRange ⟨c, hc⟩) (fun sum => ?_)
    (fun sum k hsum => ?_) 0
  · dsimp only
    rw [if_neg (FloatComplex.not_beq_zero h), entry_adjoint_eq_conj m hc hr]
    exact isNaN_add (FloatComplex.isNaN_mul_conj h)
  · dsimp only
    split
    · exact hsum
    · exact isNaN_add_left hsum _

theorem Matrix.HasNaN.checkUnitary (h : m.HasNaN) : m.checkUnitary t = .error (.notUnitary t) := by
  obtain ⟨r, hr, c, hc, hnan⟩ := h
  refine if_neg fun hunitary => ?_
  rw [isUnitary, Bool.and_eq_true] at hunitary
  exact not_near_of_isNaN (.inl (isNaN_mul_adjoint hr hc hnan)) (near_of_approxEq hunitary.2 hr hr)

theorem Matrix.HasNaN.checkHermitian (h : m.HasNaN) : m.checkHermitian t = .error (.notHermitian t) := by
  obtain ⟨r, hr, c, hc, hnan⟩ := h
  refine if_neg fun hhermitian => ?_
  rw [isHermitian, Bool.and_eq_true] at hhermitian
  exact not_near_of_isNaN hnan (near_of_approxEq hhermitian.2 hr hc)

end Matrices

/-! ### Distributions -/

theorem isNaN_total {x : Outcome Float} (hx : x ∈ pdf) (hnan : x.probability.isNaN) : (total pdf).isNaN :=
  foldl_of_mem (P := fun sum : Float => sum.isNaN) (List.mem_map_of_mem hx) (fun _ => isNaN_add hnan)
    (fun _ p hsum => isNaN_add_left hsum p) 0

theorem not_deviates_of_isNaN {x : Float} (h : x.isNaN) : ¬Deviates x := not_deviates_iff.mpr (.inl h)

/-! ### Ensembles -/

theorem Emission.HasNaN.isNaN_shareEntry {x : Emission FloatComplex Float} (h : x.HasNaN) :
    ∃ r < 2, (x.shareEntry r r).re.isNaN := by
  have hproduct {w : FloatComplex} (hw : w.re.isNaN ∨ x.probability.isNaN) :
      (w * Amplitude.ofReal x.probability).re.isNaN :=
    isNaN_sub (.inl (isNaN_mul hw))
  rcases h with hprobability | ⟨z, hz, hnan⟩
  · exact ⟨0, Nat.two_pos, hproduct (.inr hprobability)⟩
  · obtain ⟨r, hr, rfl⟩ : ∃ r < 2, x.qubit.getD r 0 = z := by
      rcases List.mem_pair.mp (Array.mem_toList_iff.mpr hz) with rfl | rfl
      · exact ⟨0, Nat.two_pos, rfl⟩
      · exact ⟨1, Nat.one_lt_two, rfl⟩
    refine ⟨r, hr, hproduct (.inl ?_)⟩
    rw [if_neg (FloatComplex.not_beq_zero hnan)]
    exact isNaN_add (FloatComplex.isNaN_mul_conj hnan)

theorem isNaN_foldl_shareEntry {x : Emission FloatComplex Float} (hx : x ∈ ensemble) {r c : Nat}
    (h : (x.shareEntry r c).re.isNaN) (sum : FloatComplex) :
    (ensemble.foldl (fun sum x => sum + x.shareEntry r c) sum).re.isNaN := by
  refine foldl_of_mem (P := fun sum : FloatComplex => sum.re.isNaN) hx (fun sum => ?_) (fun sum y hsum => ?_) sum
  · rw [FloatComplex.re_add]
    exact isNaN_add h
  · rw [FloatComplex.re_add]
    exact isNaN_add_left hsum _

theorem isNaN_spectralProbability (h : z.re.isNaN) : (spectralProbability z : Float).isNaN := by
  have hcompare : ¬(z.re.abs < RealScalar.tolerance) := not_lt_of_isNaN_left (isNaN_abs_iff.mpr h)
  rw [spectralProbability]
  exact (if_neg hcompare).symm ▸ h

/-- One of the eigenvalues is not a number if this holds of the trace: the characteristic roots are both half of the
    trace more or less the root of the discriminant. -/
theorem Matrix.exists_eigenvalues_isNaN {rho : Matrix FloatComplex} (hrows : rho.rows = 2) (hcols : rho.cols = 2)
    (h : ∃ r < 2, (rho.entry r r).re.isNaN) :
    ∃ x y, rho.eigenvalues? = .ok #[x, y] ∧ (x.re.isNaN ∨ y.re.isNaN) := by
  obtain ⟨r, hr, hnan⟩ := h
  have hdiagonal : (rho.entry 0 0).re.isNaN ∨ (rho.entry 1 1).re.isNaN := by
    obtain rfl | rfl : r = 0 ∨ r = 1 := by omega
    · exact .inl hnan
    · exact .inr hnan
  obtain ⟨x, y, hvalues, ⟨rfl, rfl⟩ | ⟨-, hroots⟩⟩ := exists_eigenvalues hrows hcols
  · exact ⟨_, _, hvalues, hdiagonal⟩
  · refine ⟨x, y, hvalues, .inl ?_⟩
    have htrace : (rho.entry 0 0 + rho.entry 1 1).re.isNaN := hdiagonal.elim (isNaN_add_left · _) isNaN_add
    obtain ⟨rfl, -⟩ := Prod.mk.inj hroots
    exact isNaN_div_left (isNaN_add_left htrace _) _

theorem exists_vonNeumannEntropy {x : Emission FloatComplex Float} (hx : x ∈ ensemble) (hnan : x.HasNaN) :
    (∃ h, vonNeumannEntropy ensemble = .ok h) ↔ checkEnsemble ensemble = .ok () := by
  cases hcheck : checkEnsemble ensemble with
  | error e =>
    refine iff_of_false ?_ (by simp)
    simp [vonNeumannEntropy_of_refused (densityOperator_of_refused hcheck)]
  | ok =>
    refine iff_of_true ?_ rfl
    obtain ⟨rho, hrho, hentries⟩ := exists_densityOperator hcheck
    obtain ⟨r, hr, hshare⟩ := hnan.isNaN_shareEntry
    have hdiagonal : (rho.entry r r).re.isNaN := hentries.entry r hr r hr ▸ isNaN_foldl_shareEntry hx hshare 0
    obtain ⟨a, b, hvalues, hab⟩ := Matrix.exists_eigenvalues_isNaN hentries.rows hentries.cols ⟨r, hr, hdiagonal⟩
    have hspectrum : (total (spectrum a b : List (Outcome Float))).isNaN := by
      rcases hab with ha | hb
      · exact isNaN_total (x := ⟨"λ0", spectralProbability a⟩) (by simp [spectrum]) (isNaN_spectralProbability ha)
      · exact isNaN_total (x := ⟨"λ1", spectralProbability b⟩) (by simp [spectrum]) (isNaN_spectralProbability hb)
    obtain ⟨hdeviates, -⟩ | ⟨-, hentropy⟩ := vonNeumannEntropy_cases hrho hvalues
    · exact absurd hdeviates (not_deviates_of_isNaN hspectrum)
    · exact hentropy

theorem checkEnsemble_iff : checkEnsemble ensemble = .ok () ↔ Distinct (ensemble.map Emission.outcome) ∧
    ((total (ensemble.map Emission.outcome)).isNaN ∨ SumsToOne (ensemble.map Emission.outcome)) ∧
    ∀ x ∈ ensemble, Ket.HasNaN x.qubit ∨ (Ket.norm x.qubit - 1.0).abs ≤ RealScalar.tolerance := by
  rw [checkEnsemble_eq_ok, checkDistribution_eq_ok, not_deviates_iff, and_assoc]
  simp only [Ket.not_deviates_norm, SumsToOne]

/-- A ket with an entry that is not a number passes the check for norm one at every tolerance. Such a probability lets any
    list of outcomes with different symbols pass, and such an amplitude any qubit: an ensemble with one of them is refused
    only for what the others are, and if it is not refused, it has an entropy. Matrices with such an entry are refused. -/
theorem nan_checks (v : Ket FloatComplex) (t : Float) (pdf : List (Outcome Float))
    (ensemble : List (Emission FloatComplex Float)) (m : Matrix FloatComplex) :
    (¬t.isNaN → (v.checkNormalized t = .ok () ↔ v.HasNaN ∨ (Ket.normSq v - 1.0).abs ≤ t)) ∧
    ((∃ x ∈ pdf, x.probability.isNaN) → ((∃ h, shannonEntropy pdf = .ok h) ↔ Distinct pdf)) ∧
    ((∃ x ∈ ensemble, x.HasNaN) →
      ((∃ rho, densityOperator ensemble = .ok rho) ↔ Distinct (ensemble.map Emission.outcome) ∧
        ((total (ensemble.map Emission.outcome)).isNaN ∨ SumsToOne (ensemble.map Emission.outcome)) ∧
        ∀ x ∈ ensemble, Ket.HasNaN x.qubit ∨ (Ket.norm x.qubit - 1.0).abs ≤ RealScalar.tolerance) ∧
      ((∃ h, vonNeumannEntropy ensemble = .ok h) ↔ ∃ rho, densityOperator ensemble = .ok rho)) ∧
    (m.HasNaN → m.checkUnitary t = .error (.notUnitary t) ∧ m.checkHermitian t = .error (.notHermitian t)) := by
  refine ⟨Ket.checkNormalized_eq_ok, ?_, ?_, fun hnan => ⟨hnan.checkUnitary, hnan.checkHermitian⟩⟩
  · rintro ⟨x, hx, hnan⟩
    rw [exists_shannonEntropy, checkDistribution_eq_ok]
    exact and_iff_left (not_deviates_of_isNaN (isNaN_total hx hnan))
  · rintro ⟨x, hx, hnan⟩
    rw [exists_densityOperator_iff, exists_vonNeumannEntropy hx hnan]
    exact ⟨checkEnsemble_iff, Iff.rfl⟩

/-- A norm that is a number, and one entry that is not in each of a list with a repeated symbol, an ensemble and a
    matrix. -/
theorem nan_checks_one :
    let v : Ket FloatComplex := #[⟨0.6, 0.0⟩, ⟨0.0, 0.8⟩]
    let pdf : List (Outcome Float) := [⟨"a", 0.0 / 0.0⟩, ⟨"a", 1.0⟩]
    let ensemble : List (Emission FloatComplex Float) :=
      [⟨"a", ⟨0.0 / 0.0, 0.0⟩, ⟨1.0, 0.0⟩, 0.5⟩, ⟨"b", ⟨1.0, 0.0⟩, ⟨0.0, 0.0⟩, 0.5⟩]
    let m : Matrix FloatComplex :=
      ⟨2, 2, #[⟨1.0, 0.0⟩, ⟨0.0, 0.0⟩, ⟨0.0, 0.0⟩, ⟨1.0, 0.0 / 0.0⟩], Nat.two_pos, Nat.two_pos, rfl⟩
    (¬(1e-9 : Float).isNaN ∧ (∃ x ∈ pdf, x.probability.isNaN) ∧ (∃ x ∈ ensemble, x.HasNaN) ∧ m.HasNaN) ∧
      v.checkNormalized 1e-9 = .ok () ∧ (¬∃ h, shannonEntropy pdf = .ok h) ∧
      (∃ rho, densityOperator ensemble = .ok rho) ∧ (∃ h, vonNeumannEntropy ensemble = .ok h) ∧
      m.checkUnitary 1e-9 = .error (.notUnitary 1e-9) ∧ m.checkHermitian 1e-9 = .error (.notHermitian 1e-9) := by
  intro v pdf ensemble m
  have hpdf : ∃ x ∈ pdf, x.probability.isNaN := by decide +kernel
  have hqubit : Ket.HasNaN #[⟨0.0 / 0.0, 0.0⟩, ⟨1.0, 0.0⟩] := by unfold Ket.HasNaN; decide +kernel
  have hensemble : ∃ x ∈ ensemble, x.HasNaN := ⟨_, List.mem_cons_self, .inr hqubit⟩
  have hm : m.HasNaN := ⟨1, Nat.one_lt_two, 1, Nat.one_lt_two, .inr (by decide +kernel)⟩
  obtain ⟨hnorm, hentropy, hdensity, hmatrix⟩ := nan_checks v 1e-9 pdf ensemble m
  obtain ⟨hrho, hspectrum⟩ := hdensity hensemble
  have hsecond : (Ket.norm (⟨"b", ⟨1.0, 0.0⟩, ⟨0.0, 0.0⟩, 0.5⟩ : Emission FloatComplex Float).qubit - 1.0).abs ≤
      (RealScalar.tolerance : Float) := by decide +kernel
  have hqubits : ∀ x ∈ ensemble, Ket.HasNaN x.qubit ∨ (Ket.norm x.qubit - 1.0).abs ≤ RealScalar.tolerance :=
    List.forall_mem_cons.mpr ⟨.inl hqubit, List.forall_mem_singleton.mpr (.inr hsecond)⟩
  have haccepted := hrho.mpr
    ⟨by unfold Distinct; decide, .inr (by unfold SumsToOne; decide +kernel), hqubits⟩
  exact ⟨⟨by decide, hpdf, hensemble, hm⟩, (hnorm (by decide)).mpr (.inr (by decide +kernel)),
    fun h => absurd ((hentropy hpdf).mp h) (by unfold Distinct; decide), haccepted, hspectrum.mpr haccepted,
    hmatrix hm⟩

/-- A ket, a list of outcomes and an ensemble that are accepted with an entry that is not a number. -/
theorem nan_accepted :
    let v : Ket FloatComplex := #[⟨0.0 / 0.0, 0.0⟩]
    let pdf : List (Outcome Float) := [⟨"a", 0.0 / 0.0⟩]
    let ensemble : List (Emission FloatComplex Float) := [⟨"a", ⟨0.0 / 0.0, 0.0⟩, ⟨0.0, 0.0⟩, 1.0⟩]
    (Ket.normSq v : Float).isNaN ∧ v.checkNormalized 1e-9 = .ok () ∧
      (∃ x ∈ pdf, x.probability.isNaN) ∧ (∃ h, shannonEntropy pdf = .ok h) ∧
      (∃ x ∈ ensemble, Ket.HasNaN x.qubit) ∧ (∃ rho, densityOperator ensemble = .ok rho) ∧
      ∃ h, vonNeumannEntropy ensemble = .ok h := by
  intro v pdf ensemble
  have hv : (Ket.normSq v : Float).isNaN := by decide +kernel
  have hqubit : Ket.HasNaN #[⟨0.0 / 0.0, 0.0⟩, ⟨0.0, 0.0⟩] := by unfold Ket.HasNaN; decide +kernel
  have hemission := List.mem_singleton_self (⟨"a", ⟨0.0 / 0.0, 0.0⟩, ⟨0.0, 0.0⟩, 1.0⟩ : Emission FloatComplex Float)
  have hcheck : checkEnsemble ensemble = .ok () := by decide +kernel
  exact ⟨hv, (Ket.checkNormalized_eq_ok (by decide)).mpr (.inl (Ket.hasNaN_iff.mpr hv)), by decide +kernel,
    exists_shannonEntropy.mpr (by decide +kernel), ⟨_, hemission, hqubit⟩, exists_densityOperator_iff.mpr hcheck,
    (exists_vonNeumannEntropy hemission (.inr hqubit)).mpr hcheck⟩

end Ketscript
