import Ketscript.Proofs.Linear.Exact
import Ketscript.Proofs.Operations
import Ketscript.Proofs.Registers
import Mathlib.Data.Nat.Bitwise

/-! Measurement in exact arithmetic. The running sums of the weights cut the line from zero to the squared norm
    into one interval for every index. The index that is drawn at a point is that of its interval, so the points
    at which an index is drawn are an interval as long as the probability of its basis state. -/

namespace Ketscript
open Finset

/-! ### Bits of an index -/

/-- The number that bits spell, the most significant first. -/
def Bits.value (bits : Bits) : Nat := bits.foldl (fun n bit => 2 * n + bit.toNat) 0

namespace Ket

theorem length_bitsOf (width index : Nat) : (bitsOf width index).length = width := by
  rw [bitsOf, List.length_map, List.length_reverse, List.length_range]

theorem bitsOf_succ (width index : Nat) : bitsOf (width + 1) index = index.testBit width :: bitsOf width index := by
  rw [bitsOf, List.range_succ, List.reverse_concat, List.map_cons, bitsOf]

theorem value_bitsOf {width index : Nat} (h : index < 2 ^ width) : (bitsOf width index).value = index := by
  -- The bits are read behind those of a number that was read before.
  have hbehind (n : Nat) : (bitsOf width index).foldl (fun n bit => 2 * n + bit.toNat) n =
      n * 2 ^ width + index % 2 ^ width := by
    clear h
    induction width generalizing n with
    | zero => simp [bitsOf, Nat.mod_one]
    | succ width ih =>
      rw [bitsOf_succ, List.foldl_cons, ih, Nat.toNat_testBit, Nat.mod_pow_succ, Nat.pow_succ]
      ring
  rw [Bits.value, hbehind, Nat.zero_mul, Nat.zero_add, Nat.mod_eq_of_lt h]

/-! ### Running sums -/

section
variable {v : Ket ℂ}

/-- The sum of the weights before an index. -/
noncomputable def cumulative (v : Ket ℂ) (i : Nat) : ℝ := ∑ j ∈ range i, Complex.normSq (v.getD j 0)

/-- The point `u` of the unit interval lies in the interval of the index, when the unit interval is stretched to
    the sum of all weights. -/
def Covers (v : Ket ℂ) (i : Nat) (u : ℝ) : Prop :=
  i < v.size ∧ v.cumulative i ≤ u * normSq v ∧ u * normSq v < v.cumulative (i + 1)

theorem cumulative_zero (v : Ket ℂ) : v.cumulative 0 = 0 := sum_range_zero _

theorem cumulative_size (v : Ket ℂ) : v.cumulative v.size = normSq v := (normSq_eq_sum v).symm

theorem cumulative_succ (v : Ket ℂ) (i : Nat) :
    v.cumulative (i + 1) = v.cumulative i + Complex.normSq (v.getD i 0) := sum_range_succ _ i

theorem cumulative_mono (v : Ket ℂ) : Monotone v.cumulative :=
  monotone_nat_of_le_succ fun i => by
    rw [cumulative_succ]
    exact le_add_of_nonneg_right (Complex.normSq_nonneg _)

theorem Covers.unique {i j : Nat} {u : ℝ} (hi : v.Covers i u) (hj : v.Covers j u) : i = j := by
  have hle {i j : Nat} (hi : v.Covers i u) (hj : v.Covers j u) : i ≤ j := by
    by_contra hlt
    have hmono := cumulative_mono v (Nat.succ_le_of_lt (Nat.lt_of_not_le hlt))
    exact absurd (hj.2.2.trans_le hmono) (not_lt.mpr hi.2.1)
  exact le_antisymm (hle hi hj) (hle hj hi)

/-- The points that an index covers are a part of the unit interval. -/
theorem covers_iff {i : Nat} {u : ℝ} (hi : i < v.size) (hnorm : 0 < normSq v) :
    u ∈ Set.Ico (0 : ℝ) 1 ∧ v.Covers i u ↔
      u ∈ Set.Ico (v.cumulative i / normSq v) (v.cumulative (i + 1) / normSq v) := by
  rw [Set.mem_Ico (a := v.cumulative i / normSq v), div_le_iff₀ hnorm, lt_div_iff₀ hnorm]
  refine ⟨fun h => h.2.2, fun ⟨hbelow, hpast⟩ => ⟨⟨?_, ?_⟩, hi, hbelow, hpast⟩⟩
  · have hfirst : 0 ≤ v.cumulative i := cumulative_zero v ▸ cumulative_mono v i.zero_le
    exact nonneg_of_mul_nonneg_left (hfirst.trans hbelow) hnorm
  · have hlast : v.cumulative (i + 1) ≤ normSq v := cumulative_size v ▸ cumulative_mono v hi
    exact (mul_lt_iff_lt_one_left hnorm).mp (hpast.trans_le hlast)

/-! ### The index that is drawn -/

theorem normSq_getElem {i : Nat} (hi : i < v.size) : Amplitude.normSq v[i] = Complex.normSq (v.getD i 0) := by
  rw [Array.getD_eq_getD_getElem?, Array.getElem?_eq_getElem hi]
  rfl

/-- From an index on, at which the sum of the weights has not passed the point, the walk comes to the index whose
    weight passes it. -/
theorem firstPast?_cumulative {point : ℝ} {i : Nat} (hbelow : v.cumulative i ≤ point)
    (htotal : point < v.cumulative v.size) :
    ∃ j, firstPast? v point i (v.cumulative i) = some j ∧ j < v.size ∧ v.cumulative j ≤ point ∧
      point < v.cumulative (j + 1) := by
  have hi : i < v.size := by
    by_contra hle
    exact absurd (htotal.trans_le (cumulative_mono v (Nat.le_of_not_lt hle))) (not_lt.mpr hbelow)
  have hsucc := cumulative_succ v i
  rw [firstPast?, dif_pos hi]
  simp only [normSq_getElem hi, beq_iff_eq]
  by_cases hzero : Complex.normSq (v.getD i 0) = 0
  · -- An index of weight zero leaves the sum as it is.
    rw [hzero, add_zero] at hsucc
    rw [if_pos hzero, ← hsucc]
    exact firstPast?_cumulative (hsucc ▸ hbelow) htotal
  · rw [if_neg hzero, ← hsucc]
    by_cases hpast : point < v.cumulative (i + 1)
    · exact ⟨i, if_pos hpast, hi, hbelow, hpast⟩
    · rw [if_neg hpast]
      exact firstPast?_cumulative (not_lt.mp hpast) htotal
termination_by v.size - i

/-- At a point of the unit interval the walk comes to the index whose interval the point lies in. -/
theorem exists_covers {u : ℝ} (hnorm : 0 < normSq v) (hu : u ∈ Set.Ico (0 : ℝ) 1) :
    ∃ i, v.Covers i u ∧ firstPast? v (u * normSq v) 0 0 = some i := by
  have hbelow : v.cumulative 0 ≤ u * normSq v := cumulative_zero v ▸ mul_nonneg hu.1 hnorm.le
  have htotal : u * normSq v < v.cumulative v.size := by
    rw [cumulative_size]
    exact mul_lt_of_lt_one_left hnorm hu.2
  obtain ⟨i, hfirst, hcovers⟩ := firstPast?_cumulative hbelow htotal
  rw [cumulative_zero] at hfirst
  exact ⟨i, hcovers, hfirst⟩

theorem firstPast?_of_covers {i : Nat} {u : ℝ} (hnorm : 0 < normSq v) (hu : u ∈ Set.Ico (0 : ℝ) 1)
    (h : v.Covers i u) : firstPast? v (u * normSq v) 0 0 = some i := by
  obtain ⟨j, hj, hfirst⟩ := exists_covers hnorm hu
  rwa [h.unique hj]

theorem probability?_eq_ok {i : Nat} (hi : i < v.size) (hnorm : 0 < normSq v) :
    v.probability? i = .ok (v.cumulative (i + 1) / normSq v - v.cumulative i / normSq v) := by
  have hzero : ¬normSq v = 0 := hnorm.ne'
  rw [← sub_div, cumulative_succ, add_sub_cancel_left]
  simp only [probability?, dif_pos hi, beq_iff_eq, if_neg hzero, normSq_getElem hi]

/-! ### The outcome that is drawn -/

theorem toNat_shiftRight_lt (word : UInt64) : (word >>> 11).toNat < 1 <<< 53 := by
  have hlt := word.toNat_lt
  simp only [UInt64.toNat_shiftRight, Nat.shiftRight_eq_div_pow]
  exact Nat.div_lt_of_lt_mul hlt

theorem unitPoint_mem (word : UInt64) : (unitPoint word : ℝ) ∈ Set.Ico (0 : ℝ) 1 := by
  have hword : (word >>> 11).toNat < 1 <<< 53 := toNat_shiftRight_lt word
  have hpos : (0 : ℝ) < (1 <<< 53 : ℕ) := Nat.cast_pos.mpr (by decide)
  unfold unitPoint
  rw [RealScalar.ofNat_eq_cast, RealScalar.ofNat_eq_cast]
  exact ⟨div_nonneg (Nat.cast_nonneg _) hpos.le, (div_lt_one hpos).mpr (Nat.cast_lt.mpr hword)⟩

theorem outcomeAt_of_covers {i : Nat} {u : ℝ} (hnorm : 0 < normSq v) (hu : u ∈ Set.Ico (0 : ℝ) 1)
    (h : v.Covers i u) : outcomeAt v u = bitsOf v.qubits i := by
  rw [outcomeAt, indexAt, firstPast?_of_covers hnorm hu h]

/-- The points at which an index is drawn are its interval. -/
theorem setOf_value_outcomeAt {i : Nat} (hi : i < v.size) (hsize : v.size = 2 ^ v.qubits) (hnorm : 0 < normSq v) :
    {u ∈ Set.Ico (0 : ℝ) 1 | (outcomeAt v u).value = i} =
      Set.Ico (v.cumulative i / normSq v) (v.cumulative (i + 1) / normSq v) := by
  have hvalue {j : Nat} {u : ℝ} (hu : u ∈ Set.Ico (0 : ℝ) 1) (hj : v.Covers j u) : (outcomeAt v u).value = j := by
    rw [outcomeAt_of_covers hnorm hu hj]
    exact value_bitsOf (hsize ▸ hj.1)
  ext u
  rw [← covers_iff hi hnorm]
  refine and_congr_right fun hu => ⟨fun hdrawn => ?_, hvalue hu⟩
  obtain ⟨j, hj, -⟩ := exists_covers hnorm hu
  exact ((hvalue hu hj).symm.trans hdrawn) ▸ hj

end

/-- Let a ket that is not zero have an amplitude for every state of `k` qubits, no more than a word can count. At
    every point of the unit interval its outcome has `k` bits, and they spell the only index whose interval the
    point lies in; the walk over the weights comes to it and does not run past the last one. So the points with
    an outcome are an interval as long as the probability of its basis state. A register with this ket is
    measured at the point of the next random word. -/
theorem measure_samples {v : Ket ℂ} {k : Nat} (hsize : v.size = 2 ^ k) (hword : v.size < 2 ^ 64)
    (hnorm : 0 < normSq v) :
    normSq v = v.cumulative (2 ^ k) ∧
      (∀ u ∈ Set.Ico (0 : ℝ) 1, (∃! i, v.Covers i u) ∧ ∀ i, v.Covers i u →
        firstPast? v (u * normSq v) 0 0 = some i ∧ (outcomeAt v u).length = k ∧ (outcomeAt v u).value = i) ∧
      (∀ i < 2 ^ k, let drawn := {u ∈ Set.Ico (0 : ℝ) 1 | (outcomeAt v u).value = i}
        drawn = Set.Ico (v.cumulative i / normSq v) (v.cumulative (i + 1) / normSq v) ∧
          v.cumulative i / normSq v ≤ v.cumulative (i + 1) / normSq v ∧
          v.probability? i = .ok (v.cumulative (i + 1) / normSq v - v.cumulative i / normSq v) ∧
          (v.getD i 0 = 0 → drawn = ∅)) ∧
      ∀ (s : Store ℂ) (register : String) (words : Nat → UInt64) (drawn : Nat),
        s.registers.find? register = some v →
          (s.measure words register).on drawn = (.ok (outcomeAt v (unitPoint (words drawn))), drawn + 1) ∧
            (unitPoint (words drawn) : ℝ) ∈ Set.Ico (0 : ℝ) 1 := by
  have hk : k ≤ 64 := by
    rw [hsize] at hword
    exact ((Nat.pow_lt_pow_iff_right Nat.one_lt_two).mp hword).le
  have hqubits : v.qubits = k := by rw [qubits, hsize, trailingZeros_two_pow hk]
  refine ⟨hsize ▸ (cumulative_size v).symm, fun u hu => ⟨?_, fun i hi => ⟨?_, ?_, ?_⟩⟩, ?_, ?_⟩
  · obtain ⟨i, hi, -⟩ := exists_covers hnorm hu
    exact ⟨i, hi, fun j hj => hj.unique hi⟩
  · exact firstPast?_of_covers hnorm hu hi
  · rw [outcomeAt_of_covers hnorm hu hi, length_bitsOf, hqubits]
  · rw [outcomeAt_of_covers hnorm hu hi, hqubits, value_bitsOf (hsize ▸ hi.1)]
  · intro i hi drawn
    have hi : i < v.size := hsize ▸ hi
    have hdrawn : drawn = _ := setOf_value_outcomeAt hi (hqubits.symm ▸ hsize) hnorm
    refine ⟨hdrawn, ?_, probability?_eq_ok hi hnorm, fun hzero => ?_⟩
    · exact div_le_div_of_nonneg_right (cumulative_mono v i.le_succ) hnorm.le
    · rw [hdrawn, cumulative_succ, hzero, Complex.normSq_zero, add_zero, Set.Ico_self]
  · intro s register words drawn hregister
    exact ⟨Store.measure_eq_ok.mpr ⟨v, hregister, hnorm, rfl, rfl⟩, unitPoint_mem (words drawn)⟩

theorem measure_samples_basis :
    let v : Ket ℂ := basis 2 1
    (v.size = 2 ^ 1 ∧ v.size < 2 ^ 64 ∧ 0 < normSq v) ∧
      {u ∈ Set.Ico (0 : ℝ) 1 | (outcomeAt v u).value = 0} = ∅ ∧
      {u ∈ Set.Ico (0 : ℝ) 1 | (outcomeAt v u).value = 1} = Set.Ico 0 1 ∧ v.probability? 1 = .ok (1 - 0) := by
  intro v
  have hsize : v.size = 2 ^ 1 := size_basis 2 1
  have hword : v.size < 2 ^ 64 := hsize ▸ by decide
  have hone : normSq v = 1 := normSq_basis (by decide)
  have hnorm : 0 < normSq v := hone ▸ one_pos
  have hzero : v.getD 0 0 = 0 := getD_basis (by decide)
  have hbefore : v.cumulative 1 = 0 := by
    rw [cumulative_succ, cumulative_zero, hzero, Complex.normSq_zero, add_zero]
  have hall : v.cumulative (1 + 1) = 1 := hone ▸ cumulative_size v ▸ congrArg v.cumulative hsize.symm
  obtain ⟨-, -, hdrawn, -⟩ := measure_samples hsize hword hnorm
  obtain ⟨hdrawn1, -, hprobability, -⟩ := hdrawn 1 (by decide)
  rw [hone, hbefore, hall, zero_div, div_one] at hdrawn1 hprobability
  exact ⟨⟨hsize, hword, hnorm⟩, (hdrawn 0 (by decide)).2.2.2 hzero, hdrawn1, hprobability⟩

end Ket
end Ketscript
