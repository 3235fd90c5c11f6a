import Ketscript.Entropy
import Ketscript.Proofs.Checks
import Ketscript.Proofs.Eigenpairs
import Ketscript.Proofs.Linear.Unitary

/-! Distributions and ensembles over any scalars. A list of outcomes is refused if a symbol is repeated, and else if its
    total deviates from one; an ensemble is refused for the same causes and for a qubit whose norm deviates from one. An
    ensemble that is not refused has a density operator, which is the sum of the shares of its qubits entry by entry, and
    two eigenvalues. Its entropy is then that of a list of two outcomes with different symbols, so only the total of this
    list can still be refused. -/

namespace Ketscript

/-! ### Repeated names -/

/-- A name that stands also further left, where no name is repeated. -/
def IsFirstRepeated (name : String) (names : List String) : Prop :=
  ∃ before after, names = before ++ name :: after ∧ before.Nodup ∧ name ∈ before

theorem firstRepeated?_eq_none {seen names : List String} :
    firstRepeated? seen names = none ↔ names.Nodup ∧ ∀ name ∈ names, name ∉ seen := by
  induction names generalizing seen with
  | nil => simp [firstRepeated?]
  | cons name names ih =>
    rw [firstRepeated?]
    split
    · rename_i hseen
      rw [List.contains_iff_mem] at hseen
      simp [hseen]
    · rename_i hseen
      rw [List.contains_iff_mem] at hseen
      rw [ih]
      grind

theorem exists_of_firstRepeated? {seen names : List String} {name : String}
    (h : firstRepeated? seen names = some name) :
    ∃ before after, names = before ++ name :: after ∧ before.Nodup ∧ (∀ other ∈ before, other ∉ seen) ∧
      (name ∈ before ∨ name ∈ seen) := by
  induction names generalizing seen with
  | nil => cases h
  | cons first names ih =>
    rw [firstRepeated?] at h
    split at h
    · rename_i hseen
      cases h
      exact ⟨[], names, rfl, List.nodup_nil, by simp, .inr (List.contains_iff_mem.mp hseen)⟩
    · rename_i hseen
      rw [List.contains_iff_mem] at hseen
      obtain ⟨before, after, rfl, hnodup, hnot, hmem⟩ := ih h
      exact ⟨first :: before, after, rfl, by grind, by grind, by grind⟩

theorem isFirstRepeated_of_firstRepeated? {names : List String} {name : String}
    (h : firstRepeated? [] names = some name) : IsFirstRepeated name names := by
  obtain ⟨before, after, hnames, hnodup, -, hmem⟩ := exists_of_firstRepeated? h
  exact ⟨before, after, hnames, hnodup, hmem.resolve_right List.not_mem_nil⟩

/-! ### Distributions -/

section Distributions
variable {R : Type} [RealScalar R] {pdf : List (Outcome R)} {e : EntropyError R}

/-- The sum of the probabilities from the left. -/
def total (pdf : List (Outcome R)) : R := (pdf.map (·.probability)).foldl (· + ·) 0

/-- No symbol is repeated. -/
def Distinct (pdf : List (Outcome R)) : Prop := (pdf.map (·.symbol)).Nodup

/-- The distance to one is above the tolerance. -/
def Deviates (x : R) : Prop := RealScalar.tolerance < RealScalar.abs (x - RealScalar.ofNat 1)

instance (x : R) : Decidable (Deviates x) := RealScalar.decLt _ _

theorem checkDistribution_cases (pdf : List (Outcome R)) :
    (∃ name, IsFirstRepeated name (pdf.map (·.symbol)) ∧ ¬Distinct pdf ∧
        checkDistribution pdf = .error (.repeated name)) ∨
      (Distinct pdf ∧ Deviates (total pdf) ∧ checkDistribution pdf = .error (.sum (total pdf))) ∨
      (Distinct pdf ∧ ¬Deviates (total pdf) ∧ checkDistribution pdf = .ok ()) := by
  rw [checkDistribution]
  cases hname : firstRepeated? [] (pdf.map (·.symbol)) with
  | some name =>
    refine .inl ⟨name, isFirstRepeated_of_firstRepeated? hname, fun hdistinct => ?_, rfl⟩
    have hnone := firstRepeated?_eq_none.mpr ⟨hdistinct, fun _ _ => List.not_mem_nil⟩
    cases hnone.symm.trans hname
  | none =>
    obtain ⟨hdistinct, -⟩ := firstRepeated?_eq_none.mp hname
    by_cases htotal : Deviates (total pdf)
    · exact .inr (.inl ⟨hdistinct, htotal, if_pos htotal⟩)
    · exact .inr (.inr ⟨hdistinct, htotal, if_neg htotal⟩)

theorem checkDistribution_eq_ok : checkDistribution pdf = .ok () ↔ Distinct pdf ∧ ¬Deviates (total pdf) := by
  rcases checkDistribution_cases pdf with ⟨name, -, hrepeated, hcheck⟩ | ⟨-, htotal, hcheck⟩ | ⟨hdistinct, htotal, hcheck⟩
  · exact iff_of_false (by simp [hcheck]) fun h => hrepeated h.1
  · exact iff_of_false (by simp [hcheck]) fun h => h.2 htotal
  · exact iff_of_true hcheck ⟨hdistinct, htotal⟩

/-- An entropy is computed for what passes the check, and there is no other cause of failure. -/
theorem shannonEntropy_eq_error : shannonEntropy pdf = .error e ↔ checkDistribution pdf = .error e := by
  rw [shannonEntropy]
  cases checkDistribution pdf <;> simp [bind, Except.bind, pure, Except.pure]

theorem exists_shannonEntropy : (∃ h, shannonEntropy pdf = .ok h) ↔ checkDistribution pdf = .ok () := by
  rw [shannonEntropy]
  cases checkDistribution pdf <;> simp [bind, Except.bind, pure, Except.pure]

/-- The probabilities that an entropy takes into account. -/
def positiveProbabilities (pdf : List (Outcome R)) : List R := (pdf.map (·.probability)).filter fun p => decide (0 < p)

theorem shannonEntropy_congr {other : List (Outcome R)} (hpdf : checkDistribution pdf = .ok ())
    (hother : checkDistribution other = .ok ()) (h : positiveProbabilities pdf = positiveProbabilities other) :
    shannonEntropy pdf = shannonEntropy other := by
  simp only [positiveProbabilities] at h
  rw [shannonEntropy, shannonEntropy, hpdf, hother, h]

end Distributions

/-! ### Ensembles -/

section Ensembles
variable {K R : Type} [RealScalar R] [Amplitude K R] {ensemble : List (Emission K R)} {e : EntropyError R}

def Emission.qubit (x : Emission K R) : Ket K := #[x.zero, x.one]

theorem checkEnsemble_of_refused (h : checkDistribution (ensemble.map Emission.outcome) = .error e) :
    checkEnsemble ensemble = .error e := by
  rw [checkEnsemble, h]
  rfl

theorem checkEnsemble_of_accepted (h : checkDistribution (ensemble.map Emission.outcome) = .ok ()) :
    checkEnsemble ensemble = match ensemble.find? fun x => decide (Deviates (Ket.norm x.qubit)) with
      | some x => .error (.notNormalized x.symbol)
      | none => .ok () := by
  rw [checkEnsemble, h]
  rfl

theorem checkEnsemble_cases (h : checkDistribution (ensemble.map Emission.outcome) = .ok ()) :
    (∃ x ∈ ensemble, Deviates (Ket.norm x.qubit) ∧ checkEnsemble ensemble = .error (.notNormalized x.symbol)) ∨
      ((∀ x ∈ ensemble, ¬Deviates (Ket.norm x.qubit)) ∧ checkEnsemble ensemble = .ok ()) := by
  rw [checkEnsemble_of_accepted h]
  cases hwrong : ensemble.find? fun x => decide (Deviates (Ket.norm x.qubit)) with
  | some x =>
    have hdeviates := List.find?_some hwrong
    exact .inl ⟨x, List.mem_of_find?_eq_some hwrong, of_decide_eq_true hdeviates, rfl⟩
  | none => exact .inr ⟨fun x hx => by simpa using List.find?_eq_none.mp hwrong x hx, rfl⟩

theorem checkEnsemble_eq_ok : checkEnsemble ensemble = .ok () ↔
    checkDistribution (ensemble.map Emission.outcome) = .ok () ∧ ∀ x ∈ ensemble, ¬Deviates (Ket.norm x.qubit) := by
  cases h : checkDistribution (ensemble.map Emission.outcome) with
  | error e => simp [checkEnsemble_of_refused h]
  | ok =>
    rcases checkEnsemble_cases h with ⟨x, hx, hdeviates, hcheck⟩ | ⟨hall, hcheck⟩
    · exact iff_of_false (by simp [hcheck]) fun h => h.2 x hx hdeviates
    · exact iff_of_true hcheck ⟨rfl, hall⟩

end Ensembles

/-! ### Density operators -/

section Density
variable {K R : Type} [RealScalar R] [Amplitude K R] [Add K] [Mul K] [Zero K] [BEq K]

/-- The entry of the share of a qubit: that of the projector times the probability. -/
def Emission.shareEntry (x : Emission K R) (r c : Nat) : K :=
  (if x.qubit.getD r 0 == 0 then 0 else 0 + x.qubit.getD r 0 * Amplitude.conj (x.qubit.getD c 0)) *
    Amplitude.ofReal x.probability

/-- A matrix of two rows and columns with given entries. -/
structure HasEntries (m : Matrix K) (f : Nat → Nat → K) : Prop where
  rows : m.rows = 2
  cols : m.cols = 2
  entry : ∀ r < 2, ∀ c < 2, m.entry r c = f r c

theorem exists_share (x : Emission K R) : ∃ m, x.share? = .ok m ∧ HasEntries m x.shareEntry := by
  let ket : Matrix K := .ofFn 2 1 Nat.two_pos Nat.one_pos fun r _ => x.qubit.getD r 0
  have hket {r : Nat} (hr : r < 2) : ket.entry r 0 = x.qubit.getD r 0 :=
    Matrix.entry_ofFn Nat.two_pos Nat.one_pos _ hr Nat.one_pos
  refine ⟨(ket.mul ket.adjoint).scale (Amplitude.ofReal x.probability), rfl, rfl, rfl, fun r hr c hc => ?_⟩
  have hscale : ((ket.mul ket.adjoint).scale (Amplitude.ofReal x.probability)).entry r c =
      (ket.mul ket.adjoint).entry r c * Amplitude.ofReal x.probability :=
    Matrix.entry_ofFn Nat.two_pos Nat.two_pos _ hr hc
  have hmul : (ket.mul ket.adjoint).entry r c =
      if ket.entry r 0 == 0 then 0 else 0 + ket.entry r 0 * ket.adjoint.entry 0 c :=
    Matrix.entry_mul_eq_fold (a := ket) (b := ket.adjoint) rfl hr hc
  rw [hscale, hmul, Matrix.entry_adjoint_eq_conj ket Nat.one_pos hc, hket hr, hket hc]
  rfl

theorem exists_sum (ensemble : List (Emission K R)) {m : Matrix K} {f : Nat → Nat → K} (hm : HasEntries m f) :
    ∃ rho, ensemble.foldlM (fun sum x => do sum.add? (← x.share?)) m = .ok rho ∧
      HasEntries rho fun r c => ensemble.foldl (fun sum x => sum + x.shareEntry r c) (f r c) := by
  induction ensemble generalizing m f with
  | nil => exact ⟨m, rfl, hm⟩
  | cons x ensemble ih =>
    obtain ⟨share, hshare, hentries⟩ := exists_share x
    have hadd : m.add? share = .ok (.ofFn m.rows m.cols m.rows_pos m.cols_pos fun r c => m.entry r c + share.entry r c) :=
      if_pos ⟨hm.rows.trans hentries.rows.symm, hm.cols.trans hentries.cols.symm⟩
    generalize hnext : Matrix.ofFn m.rows m.cols m.rows_pos m.cols_pos (fun r c => m.entry r c + share.entry r c) = next
      at hadd
    have hnext : HasEntries next fun r c => f r c + x.shareEntry r c := by
      subst hnext
      refine ⟨hm.rows, hm.cols, fun r hr c hc => ?_⟩
      rw [Matrix.entry_ofFn _ _ _ (hm.rows ▸ hr) (hm.cols ▸ hc), hm.entry r hr c hc, hentries.entry r hr c hc]
    obtain ⟨rho, hrho, hsum⟩ := ih hnext
    refine ⟨rho, ?_, hsum⟩
    rw [List.foldlM_cons, hshare, ← hrho]
    show (m.add? share >>= _) = _
    rw [hadd]
    rfl

/-- An ensemble that passes the check has a density operator, the sum of the shares. -/
theorem exists_densityOperator {ensemble : List (Emission K R)} (h : checkEnsemble ensemble = .ok ()) :
    ∃ rho, densityOperator ensemble = .ok rho ∧
      HasEntries rho fun r c => ensemble.foldl (fun sum x => sum + x.shareEntry r c) 0 := by
  have hzeros : Matrix.zeros? 2 2 = .ok (.ofFn 2 2 Nat.two_pos Nat.two_pos fun _ _ => (0 : K)) := rfl
  obtain ⟨rho, hrho, hsum⟩ := exists_sum ensemble (m := .ofFn 2 2 Nat.two_pos Nat.two_pos fun _ _ => (0 : K))
    (f := fun _ _ => 0) ⟨rfl, rfl, fun r hr c hc => Matrix.entry_ofFn _ _ _ hr hc⟩
  refine ⟨rho, ?_, hsum⟩
  rw [densityOperator, h, hzeros]
  show Except.mapError _ (ensemble.foldlM _ _) = _
  rw [hrho]
  rfl

theorem densityOperator_of_refused {ensemble : List (Emission K R)} {e : EntropyError R}
    (h : checkEnsemble ensemble = .error e) : densityOperator ensemble = .error e := by
  rw [densityOperator, h]
  rfl

theorem exists_densityOperator_iff {ensemble : List (Emission K R)} :
    (∃ rho, densityOperator ensemble = .ok rho) ↔ checkEnsemble ensemble = .ok () := by
  cases h : checkEnsemble ensemble with
  | error e => simp [densityOperator_of_refused h]
  | ok =>
    obtain ⟨rho, hrho, -⟩ := exists_densityOperator h
    exact iff_of_true ⟨rho, hrho⟩ rfl

end Density

/-! ### Spectra -/

section Spectra
variable {K R : Type} [RealScalar R] [Amplitude K R]

/-- The eigenvalues as the outcomes of a distribution. -/
def spectrum (x y : K) : List (Outcome R) := [⟨"λ0", spectralProbability x⟩, ⟨"λ1", spectralProbability y⟩]

theorem distinct_spectrum (x y : K) : Distinct (spectrum x y) := by
  simp [Distinct, spectrum]

variable [Add K] [Sub K] [Mul K] [Zero K]
variable {ensemble : List (Emission K R)} {rho : Matrix K} {x y : K}

theorem ofFn_two {α : Type} {n : Nat} (hn : n = 2) (f : Nat → α) :
    (Array.ofFn fun i : Fin n => f i) = #[f 0, f 1] := by
  subst hn
  rfl

/-- The eigenvalues of a matrix of two rows and columns: its diagonal, or the characteristic roots. -/
theorem Matrix.exists_eigenvaluesBy (root : K → K) (hrows : rho.rows = 2) (hcols : rho.cols = 2) :
    ∃ x y, rho.eigenvaluesBy root = .ok #[x, y] ∧ (x = rho.entry 0 0 ∧ y = rho.entry 1 1 ∨ rho.isDiagonal = false ∧
      (x, y) = characteristicRoots root (rho.entry 0 0) (rho.entry 0 1) (rho.entry 1 0) (rho.entry 1 1)) := by
  cases hdiagonal : rho.isDiagonal with
  | false => exact ⟨_, _, eigenvaluesBy_two root hrows hcols hdiagonal, .inr ⟨rfl, rfl⟩⟩
  | true =>
    have hvalues := eigenvaluesBy_diagonal root (hrows.trans hcols.symm) hdiagonal
    rw [ofFn_two hrows fun i => rho.entry i i] at hvalues
    exact ⟨_, _, hvalues, .inl ⟨rfl, rfl⟩⟩

theorem Matrix.exists_eigenvalues (hrows : rho.rows = 2) (hcols : rho.cols = 2) :
    ∃ x y, rho.eigenvalues? = .ok #[x, y] ∧ (x = rho.entry 0 0 ∧ y = rho.entry 1 1 ∨ rho.isDiagonal = false ∧
      (x, y) = characteristicRoots Amplitude.sqrt (rho.entry 0 0) (rho.entry 0 1) (rho.entry 1 0) (rho.entry 1 1)) :=
  exists_eigenvaluesBy Amplitude.sqrt hrows hcols

variable [BEq K]

theorem vonNeumannEntropy_of_refused {e : EntropyError R} (h : densityOperator ensemble = .error e) :
    vonNeumannEntropy ensemble = .error e := by
  rw [vonNeumannEntropy, h]
  rfl

theorem vonNeumannEntropy_eq (hrho : densityOperator ensemble = .ok rho) (hvalues : rho.eigenvalues? = .ok #[x, y]) :
    vonNeumannEntropy ensemble = shannonEntropy (spectrum x y) := by
  rw [vonNeumannEntropy, hrho]
  show (Except.mapError EntropyError.linear rho.eigenvalues? >>= _) = _
  rw [hvalues]
  rfl

/-- The entropy of an accepted ensemble can only be refused for the total of the spectrum. -/
theorem vonNeumannEntropy_cases (hrho : densityOperator ensemble = .ok rho) (hvalues : rho.eigenvalues? = .ok #[x, y]) :
    (Deviates (total (spectrum x y)) ∧ vonNeumannEntropy ensemble = .error (.sum (total (spectrum x y)))) ∨
      (¬Deviates (total (spectrum x y)) ∧ ∃ h, vonNeumannEntropy ensemble = .ok h) := by
  rw [vonNeumannEntropy_eq hrho hvalues, exists_shannonEntropy, shannonEntropy_eq_error]
  rcases checkDistribution_cases (spectrum x y) with ⟨-, -, hrepeated, -⟩ | ⟨-, htotal, hcheck⟩ | ⟨-, htotal, hcheck⟩
  · exact absurd (distinct_spectrum x y) hrepeated
  · exact .inl ⟨htotal, hcheck⟩
  · exact .inr ⟨htotal, hcheck⟩

end Spectra
end Ketscript
