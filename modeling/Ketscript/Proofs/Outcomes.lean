import Ketscript.Binary64.Scalar
import Ketscript.Proofs.Binary64.Arithmetic
import Ketscript.Proofs.Sampling

/-! Measurement in binary64 arithmetic. Weights are rounded, they may be infinite or not a number, and so may their
    sum and the point at which an outcome is drawn. An outcome is possible all the same: a walk that stops has found
    a weight above zero, and if it runs past the last weight, a sum above zero has a term above zero. -/

namespace Ketscript

namespace Ket
variable {K R : Type} [RealScalar R] [Amplitude K R]

/-- The weight of an index. Past the end of a ket it is that of a zero amplitude. -/
def weight (v : Ket K) (i : Nat) : R := Amplitude.normSq (v[i]?.getD (Amplitude.ofReal 0))

theorem weight_eq {v : Ket K} {i : Nat} (hi : i < v.size) : v.weight i = Amplitude.normSq v[i] := by
  rw [weight, Array.getElem?_eq_getElem hi, Option.getD_some]

/-! ### The two ways to an index -/

/-- The walk stops at a weight other than zero that takes the sum past the point. -/
theorem firstPast?_eq_some {v : Ket K} {point sum : R} {i j : Nat} (h : firstPast? v point i sum = some j) :
    j < v.size ∧ ¬v.weight j == 0 ∧ ∃ before, point < before + v.weight j := by
  rw [firstPast?] at h
  split at h
  · rename_i hi
    simp only [← weight_eq hi] at h
    split at h
    · exact firstPast?_eq_some h
    · rename_i hzero
      split at h
      · rename_i hpast
        obtain rfl := Option.some.inj h
        exact ⟨hi, hzero, sum, hpast⟩
      · exact firstPast?_eq_some h
  · cases h
termination_by v.size - i

/-- The search from the end finds a positive weight if there is one. -/
theorem lastPositive_pos {v : Ket K} {n : Nat} (h : ∃ i < n, (0 : R) < v.weight i) :
    lastPositive v n < n ∧ (0 : R) < v.weight (lastPositive v n) := by
  induction n with
  | zero =>
    obtain ⟨i, hi, -⟩ := h
    cases hi
  | succ n ih =>
    rw [lastPositive]
    split
    · rename_i hpos
      exact ⟨Nat.lt_succ_self n, hpos⟩
    · rename_i hnot
      obtain ⟨i, hi, hpos⟩ := h
      have hne : i ≠ n := by
        rintro rfl
        exact hnot hpos
      obtain ⟨hlt, hlast⟩ := ih ⟨i, by omega, hpos⟩
      exact ⟨Nat.lt_succ_of_lt hlt, hlast⟩

/-! ### Weights -/

section
open Binary64
variable {v : Ket FloatComplex}

theorem not_normSq_neg (z : FloatComplex) : ¬(Amplitude.normSq z : Float) < 0.0 := by
  intro h
  rcases neg_of_add_neg h with h | h
  · exact not_mul_self_neg _ h
  · exact not_mul_self_neg _ h

theorem exists_pos_of_foldl_pos {l : List FloatComplex} {sum : Float}
    (h : (0.0 : Float) < l.foldl (fun sum z => sum + Amplitude.normSq z) sum) :
    0.0 < sum ∨ ∃ z ∈ l, (0.0 : Float) < Amplitude.normSq z := by
  induction l generalizing sum with
  | nil => exact .inl h
  | cons z l ih =>
    rcases ih h with hsum | ⟨w, hw, hpos⟩
    · rcases pos_of_add_pos hsum with hsum | hpos
      · exact .inl hsum
      · exact .inr ⟨z, List.mem_cons_self, hpos⟩
    · exact .inr ⟨w, List.mem_cons_of_mem z hw, hpos⟩

/-- A positive sum of weights has a positive term, since the negative zero from which it starts is not positive. -/
theorem exists_weight_pos (h : (0 : Float) < normSq v) : ∃ i < v.size, (0 : Float) < v.weight i := by
  rw [normSq, ← Array.foldl_toList] at h
  rcases exists_pos_of_foldl_pos h with hstart | ⟨z, hz, hpos⟩
  · exact absurd hstart (by decide)
  · obtain ⟨i, hi, rfl⟩ := Array.mem_iff_getElem.mp (Array.mem_toList_iff.mp hz)
    refine ⟨i, hi, ?_⟩
    rw [weight_eq hi]
    exact hpos

/-- If the point is not a number, no sum passes it. -/
theorem indexAt_of_isNaN {point : Float} (h : point.isNaN) : indexAt v point = lastPositive v v.size := by
  rw [indexAt]
  split
  · rename_i j hfirst
    obtain ⟨-, -, before, hpast⟩ := firstPast?_eq_some hfirst
    exact absurd hpast (not_lt_of_isNaN_left h)
  · rfl

/-- At any point, be it a number or not, an index of positive weight is drawn from a ket of positive norm. -/
theorem indexAt_pos (hnorm : (0 : Float) < normSq v) (point : Float) :
    indexAt v point < v.size ∧ (0 : Float) < v.weight (indexAt v point) := by
  rw [indexAt]
  split
  · rename_i j hfirst
    obtain ⟨hj, hzero, before, hpast⟩ := firstPast?_eq_some hfirst
    -- A weight that is not a number would make a sum that is none, and the point would not lie below it.
    refine ⟨hj, pos_of_not (not_normSq_neg _) hzero fun hnan => ?_⟩
    exact not_lt_of_isNaN (isNaN_add hnan) hpast
  · exact lastPositive_pos (exists_weight_pos hnorm)

/-- A register of an amplitude for every state of `k` qubits, no more than a word can count, is measured at every
    random word if its squared norm is positive. Whatever the amplitudes are, an outcome that it yields has `k` bits,
    and they spell the place of an amplitude with a weight above zero, which is not zero and a number. -/
theorem measure_possible {s : Store FloatComplex} {register : String} {k : Nat}
    (hregister : s.registers.find? register = some v) (hsize : v.size = 2 ^ k) (hk : k < 64) (words : Nat → UInt64)
    (drawn : Nat) :
    ((∃ bits, ((s.measure words register).on drawn).1 = .ok bits) ↔ (0 : Float) < normSq v) ∧
      ∀ bits, ((s.measure words register).on drawn).1 = .ok bits → bits.length = k ∧ bits.value < 2 ^ k ∧
        ∃ z, v[bits.value]? = some z ∧ (0 : Float) < Amplitude.normSq z ∧
          ¬(Amplitude.normSq z : Float) == 0 ∧ ¬(Amplitude.normSq z : Float).isNaN := by
  have hqubits : v.qubits = k := by rw [qubits, hsize, trailingZeros_two_pow (Nat.le_of_lt hk)]
  have hmeasure (bits : Bits) : ((s.measure words register).on drawn).1 = .ok bits ↔
      (0 : Float) < normSq v ∧ bits = outcomeAt v (unitPoint (words drawn)) := by
    simp only [Store.fst_measure_eq_ok, hregister, Option.some.injEq, exists_eq_left']
    exact Iff.rfl
  refine ⟨?_, fun bits hbits => ?_⟩
  · simp [hmeasure]
  · obtain ⟨hnorm, rfl⟩ := (hmeasure bits).mp hbits
    obtain ⟨hlt, hpos⟩ := indexAt_pos hnorm (unitPoint (words drawn) * normSq v)
    rw [outcomeAt, length_bitsOf, hqubits, value_bitsOf (hsize ▸ hlt)]
    rw [weight_eq hlt] at hpos
    refine ⟨rfl, hsize ▸ hlt, _, Array.getElem?_eq_getElem hlt, hpos, fun hzero => ?_, fun hnan => ?_⟩
    · exact not_pos_of_beq_zero hzero hpos
    · exact not_lt_of_isNaN hnan hpos

/-- The sum of the weights is infinite here, so that the point drawn at the word zero is not a number. -/
theorem measure_possible_infinite :
    let v : Ket FloatComplex := #[⟨1.0 / 0.0, 0.0⟩, ⟨1.0, 0.0⟩]
    let s : Store FloatComplex := { Store.empty with registers := Store.empty.registers.insert "A" v }
    (s.measure (fun _ => 0) "A").on 0 = (.ok [true], 1) ∧ (unitPoint 0 * normSq v : Float).isNaN ∧
      ∃ z, v[1]? = some z ∧ (0 : Float) < Amplitude.normSq z := by
  intro v s
  have hregister : s.registers.find? "A" = some v := NameMap.find?_insert_self _ _ _
  have hnan : (unitPoint 0 * normSq v : Float).isNaN := by decide +kernel
  have hdrawn : outcomeAt v (unitPoint 0) = [true] := by
    rw [outcomeAt, indexAt_of_isNaN hnan]
    decide +kernel
  have hmeasure : (s.measure (fun _ => 0) "A").on 0 = (.ok [true], 1) :=
    Store.measure_eq_ok.mpr ⟨v, hregister, by decide +kernel, hdrawn.symm, rfl⟩
  obtain ⟨-, hpossible⟩ := measure_possible hregister (k := 1) rfl (by decide) (fun _ => 0) 0
  obtain ⟨-, -, z, hz, hpos, -⟩ := hpossible _ (congrArg Prod.fst hmeasure)
  exact ⟨hmeasure, hnan, z, hz, hpos⟩

end
end Ket
end Ketscript
