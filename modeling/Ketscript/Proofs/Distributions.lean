import Ketscript.Binary64.Scalar
import Ketscript.Proofs.Binary64.NotANumber
import Ketscript.Proofs.Ensembles

/-! Which lists of binary64 numbers are accepted as probabilities. Finite numbers are accepted exactly if no symbol is
    repeated and their sum, as it is rounded from the left, is one up to the tolerance, and they are refused for nothing
    but these two causes. A negative number is not a cause: it counts in the sum, and the entropy leaves it out. -/

namespace Ketscript
open Binary64

variable {x : Float} {pdf : List (Outcome Float)}

/-- The sum of the probabilities is one up to the tolerance. -/
def SumsToOne (pdf : List (Outcome Float)) : Prop := (total pdf - 1.0).abs ≤ RealScalar.tolerance

/-- What is tested of a list of outcomes: different symbols, and a sum of one. -/
structure IsSummable (pdf : List (Outcome Float)) : Prop where
  distinct : Distinct pdf
  sum : SumsToOne pdf

/-- A probability distribution. -/
structure IsDistribution (pdf : List (Outcome Float)) : Prop extends IsSummable pdf where
  nonneg : ∀ x ∈ pdf, 0.0 ≤ x.probability

/-- The two causes to refuse a list of outcomes. The sum is a cause only if no symbol is repeated. -/
inductive RefusedFor (pdf : List (Outcome Float)) : EntropyError Float → Prop where
  | repeated {name : String} (h : IsFirstRepeated name (pdf.map (·.symbol))) : RefusedFor pdf (.repeated name)
  | sum (hdistinct : Distinct pdf) (h : ¬SumsToOne pdf) : RefusedFor pdf (.sum (total pdf))

/-! ### Sums -/

theorem ofNat_one : (RealScalar.ofNat 1 : Float) = 1.0 := by decide +kernel

theorem not_isNaN_tolerance : ¬(RealScalar.tolerance : Float).isNaN := by decide +kernel

theorem isNaN_sub_one_iff : (x - 1.0).isNaN ↔ x.isNaN := by
  refine ⟨fun h => ?_, fun h => isNaN_sub (.inl h)⟩
  rw [sub_eq_add_neg] at h
  by_contra hx
  exact not_isNaN_add hx (isFinite_neg (by decide)) h

/-- A number that is not refused is one up to the tolerance, or is not a number. -/
theorem not_deviates_iff : ¬Deviates x ↔ x.isNaN ∨ (x - 1.0).abs ≤ RealScalar.tolerance := by
  have hdeviates : Deviates x ↔ (RealScalar.tolerance : Float) < (x - 1.0).abs := by rw [← ofNat_one]; rfl
  rw [hdeviates, not_lt_iff, isNaN_abs_iff, isNaN_sub_one_iff, or_iff_right not_isNaN_tolerance]

/-! ### Finite probabilities -/

section Finite
variable (hfinite : ∀ x ∈ pdf, x.probability.isFinite)
include hfinite

theorem not_isNaN_total : ¬(total pdf).isNaN := by
  have hprobabilities : ∀ p ∈ pdf.map (·.probability), p.isFinite := by simpa using hfinite
  refine List.foldlRecOn (motive := fun sum : Float => ¬sum.isNaN) _ _ ?_ fun sum hsum p hp => ?_
  · decide
  · exact not_isNaN_add hsum (hprobabilities p hp)

theorem not_deviates_total : ¬Deviates (total pdf) ↔ SumsToOne pdf :=
  not_deviates_iff.trans (or_iff_right (not_isNaN_total hfinite))

theorem checkDistribution_iff : checkDistribution pdf = .ok () ↔ IsSummable pdf := by
  rw [checkDistribution_eq_ok, not_deviates_total hfinite]
  exact ⟨fun h => ⟨h.1, h.2⟩, fun h => ⟨h.1, h.2⟩⟩

theorem exists_refusedFor (h : ¬IsSummable pdf) : ∃ e, RefusedFor pdf e ∧ checkDistribution pdf = .error e := by
  rcases checkDistribution_cases pdf with ⟨name, hname, -, hcheck⟩ | ⟨hdistinct, htotal, hcheck⟩ | ⟨-, -, hcheck⟩
  · exact ⟨_, .repeated hname, hcheck⟩
  · refine ⟨_, .sum hdistinct fun hsum => ?_, hcheck⟩
    exact (not_deviates_total hfinite).mpr hsum htotal
  · exact absurd ((checkDistribution_iff hfinite).mp hcheck) h

end Finite

/-- An entropy is reported for outcomes with finite probabilities exactly if their symbols differ and the probabilities
    add up to one, and if not, one of these is the cause of the refusal; the same holds of the density operator, for
    qubits of norm one. So of the lists without a negative probability exactly the distributions are accepted. In any
    other list the negative probabilities are left out: the entropy is that of every accepted list with the same positive
    ones. -/
theorem accepted_outcomes (pdf : List (Outcome Float)) (hfinite : ∀ x ∈ pdf, x.probability.isFinite) :
    ((∃ h, shannonEntropy pdf = .ok h) ↔ IsSummable pdf) ∧
    (¬IsSummable pdf → ∃ e, RefusedFor pdf e ∧ shannonEntropy pdf = .error e) ∧
    (∀ ensemble : List (Emission FloatComplex Float), ensemble.map Emission.outcome = pdf →
      ((∃ rho, densityOperator ensemble = .ok rho) ↔
        IsSummable pdf ∧ ∀ x ∈ ensemble, ¬Deviates (Ket.norm x.qubit)) ∧
      (¬IsSummable pdf → ∃ e, RefusedFor pdf e ∧ densityOperator ensemble = .error e)) ∧
    ((∀ x ∈ pdf, 0.0 ≤ x.probability) → ((∃ h, shannonEntropy pdf = .ok h) ↔ IsDistribution pdf)) ∧
    ∀ other : List (Outcome Float), (∃ h, shannonEntropy pdf = .ok h) → (∃ h, shannonEntropy other = .ok h) →
      positiveProbabilities pdf = positiveProbabilities other → shannonEntropy pdf = shannonEntropy other := by
  have haccepted : (∃ h, shannonEntropy pdf = .ok h) ↔ IsSummable pdf :=
    exists_shannonEntropy.trans (checkDistribution_iff hfinite)
  refine ⟨haccepted, fun h => ?_, fun ensemble houtcomes => ⟨?_, fun h => ?_⟩, fun hnonneg => haccepted.trans ?_,
    fun other hpdf hother hpositive => ?_⟩
  · obtain ⟨e, he, hcheck⟩ := exists_refusedFor hfinite h
    exact ⟨e, he, shannonEntropy_eq_error.mpr hcheck⟩
  · rw [exists_densityOperator_iff, checkEnsemble_eq_ok, houtcomes, checkDistribution_iff hfinite]
  · obtain ⟨e, he, hcheck⟩ := exists_refusedFor hfinite h
    exact ⟨e, he, densityOperator_of_refused (checkEnsemble_of_refused (houtcomes ▸ hcheck))⟩
  · exact ⟨fun h => ⟨h, hnonneg⟩, fun h => h.toIsSummable⟩
  · exact shannonEntropy_congr (exists_shannonEntropy.mp hpdf) (exists_shannonEntropy.mp hother) hpositive

/-- A fair coin, with a side that never comes up, and with one side instead of two. -/
theorem accepted_outcomes_coin :
    let coin : List (Outcome Float) := [⟨"heads", 0.5⟩, ⟨"tails", 0.5⟩]
    let edged : List (Outcome Float) := [⟨"heads", 0.5⟩, ⟨"edge", 0.0⟩, ⟨"tails", 0.5⟩]
    let oneSided : List (Outcome Float) := [⟨"heads", 0.5⟩, ⟨"heads", 0.5⟩]
    let ensemble : List (Emission FloatComplex Float) :=
      [⟨"heads", ⟨1.0, 0.0⟩, ⟨0.0, 0.0⟩, 0.5⟩, ⟨"tails", ⟨0.6, 0.0⟩, ⟨0.0, 0.8⟩, 0.5⟩]
    ((∀ x ∈ coin, x.probability.isFinite) ∧ (∀ x ∈ coin, 0.0 ≤ x.probability) ∧ ensemble.map Emission.outcome = coin ∧
      (∀ x ∈ edged, x.probability.isFinite) ∧ ∀ x ∈ oneSided, x.probability.isFinite) ∧
      IsDistribution coin ∧ (∃ h, shannonEntropy coin = .ok h) ∧ (∃ rho, densityOperator ensemble = .ok rho) ∧
      shannonEntropy coin = shannonEntropy edged ∧ ∃ e, RefusedFor oneSided e ∧ shannonEntropy oneSided = .error e := by
  intro coin edged oneSided ensemble
  have hcoin : ∀ x ∈ coin, x.probability.isFinite := by decide +kernel
  have hedged : ∀ x ∈ edged, x.probability.isFinite := by decide +kernel
  have honeSided : ∀ x ∈ oneSided, x.probability.isFinite := by decide +kernel
  have hnonneg : ∀ x ∈ coin, 0.0 ≤ x.probability := by decide +kernel
  have hqubits : ∀ x ∈ ensemble, ¬Deviates (Ket.norm x.qubit) := by decide +kernel
  obtain ⟨haccepted, -, hensemble, hdistribution, hpositive⟩ := accepted_outcomes coin hcoin
  obtain ⟨haccepted', -⟩ := accepted_outcomes edged hedged
  obtain ⟨-, hrefused, -⟩ := accepted_outcomes oneSided honeSided
  have hsummable : IsSummable coin := ⟨by unfold Distinct; decide, by unfold SumsToOne; decide +kernel⟩
  have hsummable' : IsSummable edged := ⟨by unfold Distinct; decide, by unfold SumsToOne; decide +kernel⟩
  have hrepeated : ¬IsSummable oneSided := fun h => absurd h.distinct (by unfold Distinct; decide)
  have hcoinOk := haccepted.mpr hsummable
  exact ⟨⟨hcoin, hnonneg, rfl, hedged, honeSided⟩, (hdistribution hnonneg).mp hcoinOk, hcoinOk,
    (hensemble ensemble rfl).1.mpr ⟨hsummable, hqubits⟩,
    hpositive edged hcoinOk (haccepted'.mpr hsummable') (by decide +kernel), hrefused hrepeated⟩

/-- A negative probability is balanced by one above one: an entropy is reported, and so is a density operator. -/
theorem negative_probability_accepted :
    let pdf : List (Outcome Float) := [⟨"a", 1.5⟩, ⟨"b", -0.5⟩]
    let ensemble : List (Emission FloatComplex Float) :=
      [⟨"a", ⟨1.0, 0.0⟩, ⟨0.0, 0.0⟩, 1.5⟩, ⟨"b", ⟨0.0, 0.0⟩, ⟨1.0, 0.0⟩, -0.5⟩]
    ensemble.map Emission.outcome = pdf ∧ (∀ x ∈ pdf, x.probability.isFinite) ∧ ¬IsDistribution pdf ∧
      (∃ h, shannonEntropy pdf = .ok h) ∧ ∃ rho, densityOperator ensemble = .ok rho := by
  intro pdf ensemble
  have hcheck : checkDistribution pdf = .ok () := by decide +kernel
  have hensemble : checkEnsemble ensemble = .ok () := by decide +kernel
  refine ⟨rfl, by decide +kernel, fun h => ?_, exists_shannonEntropy.mpr hcheck, exists_densityOperator_iff.mpr hensemble⟩
  exact absurd (h.nonneg ⟨"b", -0.5⟩ (by simp [pdf])) (by decide +kernel)

end Ketscript
