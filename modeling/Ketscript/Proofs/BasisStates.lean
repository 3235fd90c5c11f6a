import Ketscript.Proofs.Lines
import Ketscript.Proofs.Outcomes

/-! Basis states of registers. The bits of an initial state are read into an index and measured out of it again, in
    one order and width. In binary64 arithmetic the ket of a basis state has a squared norm of exactly one and the
    point that is drawn lies below it, so that the walk stops at the index. Only a new preparation of the register or
    a gate on it changes what is measured. -/

namespace Ketscript

/-! ### Bits and indices -/

namespace Bits

/-- The bits of a binary literal. -/
def ofText (s : String) : Bits := s.toList.map (· == '1')

/-- The bits of the initial state of `k` qubits, zeros if none are given. -/
def ofState (k : Nat) : Option String → Bits
  | none => List.replicate k false
  | some s => ofText s

theorem length_ofText (s : String) : List.length (ofText s) = s.length := by
  rw [ofText, List.length_map, String.length_toList]

theorem ofText_append (x y : String) : ofText (x ++ y) = ofText x ++ ofText y := by
  rw [ofText, String.toList_append, List.map_append]
  rfl

theorem value_concat (bits : Bits) (bit : Bool) : value (bits ++ [bit]) = 2 * bits.value + bit.toNat :=
  List.foldl_concat _ _ _ _

theorem value_append (x y : Bits) : value (x ++ y) = x.value * 2 ^ y.length + y.value := by
  induction y using List.reverseRecOn with
  | nil => simp [value]
  | append_singleton y bit ih =>
    rw [← List.append_assoc, value_concat, ih, value_concat, List.length_append, List.length_singleton, Nat.pow_succ]
    ring

theorem value_lt (bits : Bits) : bits.value < 2 ^ bits.length := by
  induction bits using List.reverseRecOn with
  | nil => exact Nat.one_pos
  | append_singleton bits bit ih =>
    have hbit : bit.toNat < 2 := Bool.toNat_lt bit
    rw [value_concat, List.length_append, List.length_singleton, Nat.pow_succ]
    omega

theorem value_replicate (k : Nat) : value (List.replicate k false) = 0 := by
  induction k with
  | zero => rfl
  | succ k ih => rw [List.replicate_succ', value_concat, ih, Bool.toNat_false]

end Bits

theorem Ket.bitsOf_succ_eq_concat (width index : Nat) :
    bitsOf (width + 1) index = bitsOf width (index / 2) ++ [index.testBit 0] := by
  have hhalf : index.testBit ∘ Nat.succ = (index / 2).testBit := funext (Nat.testBit_succ index)
  simp [bitsOf, List.range_succ_eq_map, hhalf]

theorem Ket.bitsOf_value (bits : Bits) : bitsOf bits.length bits.value = bits := by
  induction bits using List.reverseRecOn with
  | nil => rfl
  | append_singleton bits bit ih =>
    have hbit : bit.toNat < 2 := Bool.toNat_lt bit
    have hhalf : (2 * Bits.value bits + bit.toNat) / 2 = Bits.value bits := by omega
    have hlast : (2 * Bits.value bits + bit.toNat).testBit 0 = bit := by
      rw [Nat.testBit_zero]
      cases bit <;> simp
    rw [List.length_append, List.length_singleton, bitsOf_succ_eq_concat, Bits.value_concat, hhalf, hlast, ih]

/-! ### Initial states -/

theorem Text.valueOfDigits_two_eq {s : String} (h : ∀ c ∈ s.toList, c = '0' ∨ c = '1') :
    valueOfDigits 2 s.toList = (Bits.ofText s).value := by
  rw [valueOfDigits, Bits.value, Bits.ofText, List.foldl_map]
  refine List.foldl_ext _ _ _ fun n c hc => ?_
  rcases h c hc with rfl | rfl <;> rfl

theorem Text.binary?_eq {s : String} (hne : s.toList ≠ []) (h : ∀ c ∈ s.toList, c = '0' ∨ c = '1') :
    binary? s = some (Bits.ofText s).value := by
  rw [binary?_of_bits hne h, valueOfDigits_two_eq h]

/-- Bits are read as the index that they spell, if there is one for every qubit. -/
theorem Store.basisIndex?_eq_ok {k index : Nat} (hone : 1 ≤ k) {s : String} (h : ∀ c ∈ s.toList, c = '0' ∨ c = '1') :
    basisIndex? k (some s) = .ok index ↔ s.length = k ∧ index = (Bits.ofText s).value := by
  rw [basisIndex?, Text.utf8ByteSize_bits h]
  by_cases hk : s.length = k
  · have hne : s.toList ≠ [] := by
      intro hnil
      have hzero : s.length = 0 := by simp [← String.length_toList, hnil]
      omega
    simp [hk, Text.binary?_eq hne h, eq_comm]
  · simp [hk]

theorem Instruction.WellFormed.basisIndex?_eq {register qubits : String} {state : Option String}
    (h : WellFormed (prepare register qubits state)) (hone : 1 ≤ Text.decimalValue qubits) :
    let bits := Bits.ofState (Text.decimalValue qubits) state
    bits.length = Text.decimalValue qubits ∧
      Store.basisIndex? (Text.decimalValue qubits) state = .ok bits.value := by
  obtain ⟨-, -, hstate⟩ := h
  cases state with
  | none => exact ⟨List.length_replicate, congrArg Except.ok (Bits.value_replicate _).symm⟩
  | some text =>
    obtain ⟨hbits, hlength, -⟩ := hstate text rfl
    exact ⟨(Bits.length_ofText text).trans hlength, (Store.basisIndex?_eq_ok hone hbits).mpr ⟨hlength, rfl⟩⟩

/-! ### Kets of basis states -/

namespace Ket
open Binary64

theorem weight_zero : (Amplitude.normSq (0 : FloatComplex) : Float) = 0.0 := rfl

theorem weight_one : (Amplitude.normSq (1 : FloatComplex) : Float) = 1.0 := rfl

/-- The basis state that bits spell. -/
def ofBits {K : Type} [Zero K] [One K] (bits : Bits) : Ket K := basis (2 ^ bits.length) bits.value

theorem size_ofBits {K : Type} [Zero K] [One K] (bits : Bits) : (ofBits bits : Ket K).size = 2 ^ bits.length :=
  size_basis _ _

theorem toList_basis {K : Type} [Zero K] [One K] {size index : Nat} (hindex : index < size) :
    (basis size index : Ket K).toList = List.replicate index 0 ++ 1 :: List.replicate (size - (index + 1)) 0 := by
  rw [basis, Array.toList_setIfInBounds, Array.toList_replicate, List.set_eq_take_append_cons_drop,
    List.length_replicate, if_pos hindex, List.take_replicate, List.drop_replicate,
    Nat.min_eq_left (Nat.le_of_lt hindex)]

theorem foldl_zeros (n : Nat) {sum : Float} (h : sum + 0.0 = sum) :
    (List.replicate n (0 : FloatComplex)).foldl (fun sum z => sum + Amplitude.normSq z) sum = sum := by
  induction n with
  | zero => rfl
  | succ n ih =>
    rw [List.replicate_succ, List.foldl_cons, weight_zero]
    exact (congrArg (List.foldl _ · _) h).trans ih

/-- The squared norm of a basis state is exactly one. -/
theorem normSq_basis_eq_one {size index : Nat} (hindex : index < size) :
    normSq (basis size index : Ket FloatComplex) = (1.0 : Float) := by
  -- The sum starts from the negative zero. The first term that is added makes it positive.
  have hbefore : (List.replicate index (0 : FloatComplex)).foldl (fun sum z => sum + Amplitude.normSq z) (-0.0) +
      1.0 = (1.0 : Float) := by
    cases index with
    | zero =>
      show (-0.0 : Float) + 1.0 = 1.0
      decide
    | succ n =>
      have hfirst : (-0.0 : Float) + Amplitude.normSq (0 : FloatComplex) = 0.0 := rfl
      rw [List.replicate_succ, List.foldl_cons, hfirst, foldl_zeros n rfl]
      rfl
  rw [normSq, ← Array.foldl_toList, toList_basis hindex, List.foldl_append, List.foldl_cons, weight_one]
  exact (congrArg (List.foldl _ · _) hbefore).trans (foldl_zeros _ rfl)

/-- At a point below one the walk over a basis state stops at its index. -/
theorem firstPast?_basis {size index i : Nat} {point : Float} (hi : i ≤ index) (hindex : index < size)
    (hpoint : point < 1.0) : firstPast? (basis size index : Ket FloatComplex) point i 0.0 = some index := by
  have hlt : i < (basis size index : Ket FloatComplex).size := by
    rw [size_basis]
    omega
  have hentry : (basis size index : Ket FloatComplex)[i] = if i = index then 1 else 0 := by
    have hget : (basis size index : Ket FloatComplex).getD i 0 = if i = index then 1 else 0 :=
      getD_basis (Nat.lt_of_le_of_lt hi hindex)
    rwa [Array.getD_eq_getD_getElem?, Array.getElem?_eq_getElem hlt, Option.getD_some] at hget
  rw [firstPast?, dif_pos hlt, hentry]
  by_cases heq : i = index
  · have hsum : (0.0 : Float) + 1.0 = 1.0 := rfl
    have hpast : point < (0.0 : Float) + 1.0 := hsum.symm ▸ hpoint
    rw [if_pos heq, weight_one, heq]
    exact (if_neg (by decide)).trans (if_pos hpast)
  · rw [if_neg heq, weight_zero]
    exact (if_pos rfl).trans (firstPast?_basis (by omega) hindex hpoint)
termination_by index - i

/-- The point of the unit interval is a whole number below `2 ^ 53` divided by `2 ^ 53`, without rounding. -/
theorem unitPoint_lt_one (word : UInt64) : (unitPoint word : Float) < 1.0 := by
  have hword : (word >>> 11).toNat < 2 ^ 53 := toNat_shiftRight_lt word
  show Float.ofScientific (word >>> 11).toNat true 0 / Float.ofScientific (1 <<< 53) true 0 < 1.0
  generalize (word >>> 11).toNat = n at hword
  rcases Nat.eq_zero_or_pos n with rfl | hpos
  · decide
  · obtain ⟨m, e, hm, hform, hfull, hlow, hhigh⟩ := form_ofScientific hpos hword
    have hdivisor : form (Float.ofScientific (1 <<< 53) true 0) =
        .finite .positive (2 ^ 52) 1 (Nat.two_pow_pos 52) := rfl
    have hquotient := form_div_two_pow hform hdivisor hfull (by simp only [leastExponent]; omega)
      (by simp only [greatestExponent]; omega)
    have hless : compare (e - 1 - 52) (-52) = .lt := Int.compare_eq_lt.mpr (by omega)
    rw [lt_iff, hquotient, form_one]
    simp [Float.Model.UnpackedFloat.compare, hless]

theorem indexAt_basis {size index : Nat} (hindex : index < size) {point : Float} (hpoint : point < 1.0) :
    indexAt (basis size index : Ket FloatComplex) point = index := by
  have hfirst := firstPast?_basis (Nat.zero_le index) hindex hpoint
  rw [indexAt]
  split
  · rename_i j h
    exact Option.some.inj (h.symm.trans hfirst)
  · rename_i h
    cases h.symm.trans hfirst

theorem normSq_ofBits (bits : Bits) : normSq (ofBits bits : Ket FloatComplex) = (1.0 : Float) :=
  normSq_basis_eq_one bits.value_lt

theorem point_ofBits_lt_one (bits : Bits) (word : UInt64) :
    unitPoint word * normSq (ofBits bits : Ket FloatComplex) < (1.0 : Float) := by
  rw [normSq_ofBits, Binary64.mul_one]
  exact unitPoint_lt_one word

theorem outcomeAt_ofBits {bits : Bits} (hmax : bits.length ≤ maxQubits) (word : UInt64) :
    outcomeAt (ofBits bits : Ket FloatComplex) (unitPoint word) = bits := by
  have hqubits : (ofBits bits : Ket FloatComplex).qubits = bits.length := qubits_of_size (size_ofBits bits) hmax
  have hindex : indexAt (ofBits bits) (unitPoint word * normSq (ofBits bits : Ket FloatComplex)) = bits.value :=
    indexAt_basis bits.value_lt (point_ofBits_lt_one bits word)
  rw [outcomeAt, hqubits, hindex, bitsOf_value]

end Ket

/-! ### Registers that keep their ket -/

/-- The register whose ket an instruction replaces. -/
def Instruction.target? : Instruction → Option String
  | prepare register _ _ | apply _ register => some register
  | _ => none

namespace Machine

section
variable {K R : Type} [RealScalar R] [Amplitude K R] [Add K] [Mul K] [Zero K] [One K] [BEq K]
variable {words : Nat → UInt64} {m m' : Machine K} {register : String} {v : Ket K}

theorem Step.ket_kept {i : Instruction} {a : Option Bits} (h : m.Step words i a m')
    (hi : i.target? ≠ some register) (hv : m.store.registers.find? register = some v) :
    m'.store.registers.find? register = some v := by
  cases h with
  | @prepare name | @apply _ name =>
    have hne : register ≠ name := fun heq => hi (heq ▸ rfl)
    rw [NameMap.find?_insert_of_ne _ hne, hv]
  | define | measure => exact hv

theorem calls_ket_kept {later : List Call} (h : ∀ i ∈ m.history words later, i.target? ≠ some register)
    (hv : m.store.registers.find? register = some v) :
    (m.calls words later).store.registers.find? register = some v := by
  have hsteps := calls_steps words later m
  -- The condition on the instructions goes into the invariant, which asks it of those that are past.
  refine hsteps.invariant (P := fun past m => (∀ i ∈ past, i.target? ≠ some register) →
    m.store.registers.find? register = some v) ?_ [] (fun _ => hv) h
  intro past m i a m' hpast hstep hall
  rw [List.forall_mem_append, List.forall_mem_singleton] at hall
  exact hstep.ket_kept hall.2 (hpast hall.1)

/-- A well-formed preparation makes the basis state that its bits spell. -/
theorem execute_prepare {qubits : String} {state : Option String}
    (h : Instruction.WellFormed (.prepare register qubits state))
    (hbuiltin : Store.isBuiltin register = false) (hgate : m.store.gates.contains register = false)
    (hqubits : 1 ≤ Text.decimalValue qubits ∧ Text.decimalValue qubits ≤ maxQubits) :
    m.execute words (Instruction.render (.prepare register qubits state)) =
      (.ok none, { m with store := { m.store with
        registers := m.store.registers.insert register
          (Ket.ofBits (Bits.ofState (Text.decimalValue qubits) state)) } }) := by
  have hline := Instruction.ofLine?_eq_ok.mpr ⟨h, rfl⟩
  have hword : maxQubits < Text.maxWord := by decide
  have hcount : Text.count? qubits = some (Text.decimalValue qubits) := by
    rw [Text.count?_of_isDigits h.2.1, Nat.min_eq_left (by omega)]
  obtain ⟨hlength, hindex⟩ := h.basisIndex?_eq hqubits.1
  rw [execute_of_ofLine? words m hline, (Step.prepare hcount hbuiltin hgate hqubits hindex).run_eq, Nat.one_shiftLeft,
    Ket.ofBits, hlength]

end

theorem run_measure_ofBits (words : Nat → UInt64) {m : Machine FloatComplex} {register : String} {bits : Bits}
    (hket : m.store.registers.find? register = some (Ket.ofBits bits)) (hmax : bits.length ≤ maxQubits) :
    m.run words (.measure register) = (.ok (some bits), { m with drawn := m.drawn + 1 }) := by
  have hnorm : (0 : Float) < Ket.normSq (Ket.ofBits bits : Ket FloatComplex) := by
    rw [Ket.normSq_ofBits]
    decide
  have hstep : m.Step words (.measure register) _ _ := .measure hket hnorm
  rw [hstep.run_eq, Ket.outcomeAt_ofBits hmax]

/-- On any machine, let a register be prepared under a name that is no gate's. Whatever is called after that without
    preparing the register again or applying a gate to it, it keeps a ket whose squared norm is exactly one, the point
    drawn at every random word is below one, and a measurement gives the bits of the initial state in their order,
    zeros if none were given. -/
theorem measure_prepared (words : Nat → UInt64) {m : Machine FloatComplex} {register qubits : String}
    {state : Option String} (h : Instruction.WellFormed (.prepare register qubits state))
    (hbuiltin : Store.isBuiltin register = false) (hgate : m.store.gates.contains register = false)
    (hqubits : 1 ≤ Text.decimalValue qubits ∧ Text.decimalValue qubits ≤ maxQubits) :
    ∃ prepared, m.execute words (Instruction.render (.prepare register qubits state)) = (.ok none, prepared) ∧
      ∀ later : List Call, (∀ i ∈ prepared.history words later, i.target? ≠ some register) →
        let m' := prepared.calls words later
        let measured : Answer × Machine FloatComplex :=
          (.ok (some (Bits.ofState (Text.decimalValue qubits) state)), { m' with drawn := m'.drawn + 1 })
        (∃ v, m'.store.registers.find? register = some v ∧ Ket.normSq v = (1.0 : Float) ∧
            ∀ word, Ket.unitPoint word * Ket.normSq v < (1.0 : Float)) ∧
          m'.run words (.measure register) = measured ∧
          m'.execute words (Instruction.render (.measure register)) = measured := by
  obtain ⟨hlength, -⟩ := h.basisIndex?_eq hqubits.1
  refine ⟨_, execute_prepare h hbuiltin hgate hqubits, fun later hlater => ?_⟩
  have hket := calls_ket_kept hlater (NameMap.find?_insert_self _ _ _)
  have hrun := run_measure_ofBits words hket (Nat.le_trans (Nat.le_of_eq hlength) hqubits.2)
  have hline : Instruction.WellFormed (.measure register) := h.1
  refine ⟨⟨_, hket, Ket.normSq_ofBits _, Ket.point_ofBits_lt_one _⟩, hrun, ?_⟩
  rw [execute_of_ofLine? words _ (Instruction.ofLine?_eq_ok.mpr ⟨hline, rfl⟩), hrun]

theorem measure_prepared_between :
    let words : Nat → UInt64 := fun n => UInt64.ofNat (n + 1) <<< 62
    let m : Machine FloatComplex := fresh.calls words [.script "INITIALIZE Q 1\nMEASURE Q"]
    let later : List Call := [.execute "MEASURE Q", .script "INITIALIZE P 1\nAPPLY H P\nMEASURE P"]
    let m' : Machine FloatComplex := (m.execute words "INITIALIZE Q 3 [011]").2.calls words later
    (Instruction.prepare "Q" "3" (some "011")).WellFormed ∧ m'.drawn = 3 ∧
      m'.execute words "MEASURE Q" = (.ok (some [false, true, true]), { m' with drawn := 4 }) := by
  intro words m later m'
  have hstate : IsState "3" "011" := ⟨by simp, by decide, by decide⟩
  have h : (Instruction.prepare "Q" "3" (some "011")).WellFormed := ⟨by decide, by decide, by simpa using hstate⟩
  have hgate : m.store.gates.contains "Q" = false := by decide +kernel
  have hdrawn : m'.drawn = 3 := by decide +kernel
  have hkept : ∀ i ∈ (m.execute words "INITIALIZE Q 3 [011]").2.history words later, i.target? ≠ some "Q" := by
    decide +kernel
  obtain ⟨prepared, hprepared, hlater⟩ := measure_prepared words h (by decide) hgate (by decide)
  have hline : Instruction.render (.prepare "Q" "3" (some "011")) = "INITIALIZE Q 3 [011]" := by decide
  rw [hline] at hprepared
  simp only [m', hprepared] at hkept hdrawn ⊢
  obtain ⟨-, -, hmeasure⟩ := hlater later hkept
  rw [hdrawn] at hmeasure
  exact ⟨h, hdrawn, hmeasure⟩

end Machine
end Ketscript
