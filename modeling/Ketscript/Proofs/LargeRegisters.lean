import Ketscript.Proofs.BasisStates
import Ketscript.Proofs.Definitions

/-! Registers that no gate fits. A register may have twenty qubits, but no builtin gate and no chain of definitions
    leads to a gate for more than ten. So a larger register is never changed: whatever is run, it holds the basis state
    that its last preparation made, and every measurement of it gives the bits of that state. -/

namespace Ketscript

/-- The number of qubits and the initial state with which an instruction prepares a register. -/
def Instruction.preparation? (register : String) : Instruction → Option (String × Option String)
  | prepare name qubits state => if name = register then some (qubits, state) else none
  | _ => none

/-- The last of these in a list of instructions. -/
def lastPreparation? (past : List Instruction) (register : String) : Option (String × Option String) :=
  (past.filterMap (Instruction.preparation? register)).getLast?

theorem lastPreparation?_append_self (past : List Instruction) (register qubits : String) (state : Option String) :
    lastPreparation? (past ++ [.prepare register qubits state]) register = some (qubits, state) := by
  simp [lastPreparation?, Instruction.preparation?]

theorem lastPreparation?_append_of_none {past : List Instruction} {i : Instruction} {register : String}
    (h : i.preparation? register = none) : lastPreparation? (past ++ [i]) register = lastPreparation? past register := by
  simp [lastPreparation?, h]

/-- The basis state of `k` qubits that a preparation makes, with its index. -/
def IsPrepared {K : Type} [Zero K] [One K] (preparation : String × Option String) (k index : Nat) (v : Ket K) : Prop :=
  Text.count? preparation.1 = some k ∧ Store.basisIndex? k preparation.2 = .ok index ∧ v = Ket.basis (2 ^ k) index

namespace Store
variable {K : Type} [Zero K] [One K] {s : Store K} {past : List Instruction} {register : String} {v : Ket K}

/-- A register with more amplitudes than any gate has rows is as its last preparation has made it. -/
def Inert (s : Store K) (past : List Instruction) : Prop :=
  ∀ register v, s.registers.find? register = some v → maxGateDimension < v.size →
    ∃ preparation k index, lastPreparation? past register = some preparation ∧ IsPrepared preparation k index v

theorem Inert.past_append (h : s.Inert past) {i : Instruction} (hi : ∀ register, i.preparation? register = none) :
    s.Inert (past ++ [i]) := by
  intro register v hv hlarge
  rw [lastPreparation?_append_of_none (hi register)]
  exact h register v hv hlarge

theorem Inert.prepare (h : s.Inert past) {qubits : String} {state : Option String} {k index : Nat}
    (hcount : Text.count? qubits = some k) (hindex : basisIndex? k state = .ok index) :
    Inert { s with registers := s.registers.insert register (Ket.basis (1 <<< k) index) }
      (past ++ [.prepare register qubits state]) := by
  intro other v hv hlarge
  rcases NameMap.find?_insert_eq_some.mp hv with ⟨rfl, rfl⟩ | ⟨hne, hv⟩
  · rw [Nat.one_shiftLeft]
    exact ⟨_, k, index, lastPreparation?_append_self past other qubits state, hcount, hindex, rfl⟩
  · have hother : Instruction.preparation? other (.prepare register qubits state) = none := if_neg (Ne.symm hne)
    rw [lastPreparation?_append_of_none hother]
    exact h other v hv hlarge

/-- A register of the size of a gate is not larger than the largest gate. -/
theorem Inert.update (h : s.Inert past) {w : Ket K} (hsize : w.size ≤ maxGateDimension) :
    Inert { s with registers := s.registers.insert register w } past := by
  intro other v hv hlarge
  rcases NameMap.find?_insert_eq_some.mp hv with ⟨rfl, rfl⟩ | ⟨-, hv⟩
  · exact absurd hlarge (Nat.not_lt.mpr hsize)
  · exact h other v hv hlarge

/-- A gate does not act on a register with more amplitudes than any gate has rows: it has no matrix, or one of
    another size. -/
theorem apply_of_large {R : Type} [RealScalar R] [Amplitude K R] [Add K] [Mul K] (h : s.Sound past)
    (hv : s.registers.find? register = some v) (hlarge : maxGateDimension < v.size) (gate : String) :
    ∃ e, (apply gate register).on s = (.error e, s) ∧
      (e = .noGate gate ∨ (∃ n, e = .gateTooLarge n) ∨ ∃ n, e = .gateSize n v.size) := by
  cases hgate : s.resolve gate with
  | error e =>
    refine ⟨e, apply_of_error hv hgate, ?_⟩
    rcases resolve_eq_error.mp hgate with ⟨-, rfl⟩ | hdimension
    · exact .inl rfl
    · obtain ⟨n, -, ⟨-, rfl⟩ | ⟨-, rfl⟩⟩ := Builtin.dimensionError?_eq_some.mp hdimension
      · exact .inl rfl
      · exact .inr (.inl ⟨_, rfl⟩)
  | ok u =>
    have hne : u.rows ≠ v.size := Nat.ne_of_lt (Nat.lt_of_le_of_lt (h.resolve hgate).2 hlarge)
    exact ⟨.gateSize u.rows v.size, apply_of_size hv hgate (.inr hne), .inr (.inr ⟨u.rows, rfl⟩)⟩

end Store

namespace Machine

section
variable {K R : Type} [RealScalar R] [Amplitude K R] [Add K] [Mul K] [Zero K] [One K] [BEq K]
variable {words : Nat → UInt64} {m m' : Machine K} {past : List Instruction}

theorem Step.inert {i : Instruction} {a : Option Bits} (hsound : m.store.Sound past) (h : m.store.Inert past)
    (hstep : m.Step words i a m') : m'.store.Inert (past ++ [i]) := by
  cases hstep with
  | prepare hcount hbuiltin hgate hqubits hindex => exact h.prepare hcount hindex
  | define hdefines hfree => cases hdefines <;> exact h.past_append fun _ => rfl
  | @apply gate register v u hregister hgate hsize =>
    have hmax : (u.act v).size ≤ maxGateDimension :=
      Nat.le_trans (Nat.le_of_eq (Matrix.size_act u v)) (hsound.resolve hgate).2
    exact (h.update hmax).past_append fun _ => rfl
  | measure hregister hnorm => exact h.past_append fun _ => rfl

theorem inert_history (words : Nat → UInt64) (cs : List Call) :
    (fresh.calls words cs : Machine K).store.Inert (fresh.history (K := K) words cs) := by
  have hempty : (Store.empty : Store K).Inert [] := by
    intro register v hv
    cases (NameMap.find?_empty register).symm.trans hv
  exact ((calls_steps words cs (fresh : Machine K)).invariant
    (P := fun past m => m.store.Sound past ∧ m.store.Inert past)
    (fun _ _ _ _ _ ⟨hsound, h⟩ hstep => ⟨hstep.sound hsound, hstep.inert hsound h⟩) []
    ⟨Store.Sound.empty, hempty⟩).2

end

/-- After any calls a register of more than ten qubits holds the basis state that its last preparation made, its
    measurement gives the bits of that state whatever the random words are, no gate can be applied to it, and every
    gate there is has fewer rows than the register has amplitudes. -/
theorem large_registers (words : Nat → UInt64) (cs : List Call) {register : String} {v : Ket FloatComplex}
    (hv : (fresh.calls words cs : Machine FloatComplex).store.registers.find? register = some v)
    (hlarge : 10 < v.qubits) :
    let m : Machine FloatComplex := fresh.calls words cs
    (∃ preparation k index,
      lastPreparation? (fresh.history (K := FloatComplex) words cs) register = some preparation ∧
        IsPrepared preparation k index v ∧ v.qubits = k ∧ index < 2 ^ k ∧
          ∀ words', m.run words' (.measure register) =
            (.ok (some (Ket.bitsOf k index)), { m with drawn := m.drawn + 1 })) ∧
      (∀ gate, ∃ e, m.run words (.apply gate register) = (.error e, m) ∧
        (e = .noGate gate ∨ (∃ n, e = .gateTooLarge n) ∨ ∃ n, e = .gateSize n v.size)) ∧
      ∀ gate u, m.store.resolve gate = .ok u → u.rows < v.size := by
  intro m
  have hsound := sound_history (K := FloatComplex) words cs
  obtain ⟨k, -, -, hmax, hsize, hqubits⟩ := hsound.register_qubits register v hv
  have hlarge : maxGateDimension < v.size := by
    rw [hsize]
    exact Nat.lt_of_lt_of_le (by decide : 1024 < 2 ^ 11) (Nat.pow_le_pow_right Nat.two_pos (hqubits ▸ hlarge))
  refine ⟨?_, fun gate => ?_, fun gate u hu => Nat.lt_of_le_of_lt (hsound.resolve hu).2 hlarge⟩
  · obtain ⟨preparation, k', index, hlast, hprepared⟩ := inert_history words cs register v hv hlarge
    obtain ⟨-, hindex, hket⟩ := id hprepared
    obtain rfl : k = k' := by
      rw [hket, Ket.size_basis] at hsize
      exact (Nat.pow_right_injective (Nat.le_refl 2) hsize).symm
    have hlt : index < 2 ^ k := Store.basisIndex?_lt hindex
    refine ⟨preparation, k, index, hlast, hprepared, hqubits, hlt, fun words' => ?_⟩
    have hlength : (Ket.bitsOf k index).length = k := Ket.length_bitsOf k index
    have hbits : v = Ket.ofBits (Ket.bitsOf k index) := by
      rw [Ket.ofBits, Ket.value_bitsOf hlt, hlength, hket]
    exact run_measure_ofBits words' (hbits ▸ hv) (Nat.le_trans (Nat.le_of_eq hlength) hmax)
  · obtain ⟨e, happly, he⟩ := Store.apply_of_large hsound hv hlarge gate
    refine ⟨e, ?_, he⟩
    exact onStore_bind_pure happly

theorem large_registers_eleven :
    let words : Nat → UInt64 := fun _ => 0
    let m : Machine FloatComplex := fresh.calls words [.script "U TENSOR H CNOT\nINITIALIZE Q 11 [00000000101]"]
    let v : Ket FloatComplex := Ket.basis (1 <<< 11) 5
    (m.store.registers.find? "Q" = some v ∧ 10 < v.qubits) ∧
      (∀ words', m.run words' (.measure "Q") = (.ok (some (Ket.bitsOf 11 5)), { m with drawn := 1 })) ∧
      ∃ e, m.run words (.apply "U" "Q") = (.error e, m) := by
  intro words m v
  have hv : m.store.registers.find? "Q" = some v := by with_unfolding_all rfl
  have hdrawn : 1 = m.drawn + 1 := by decide +kernel
  have hsize : v.size = 2 ^ 11 := Ket.size_basis _ _
  have hqubits : v.qubits = 11 := Ket.qubits_of_size hsize (by decide)
  have hlarge : 10 < v.qubits := hqubits ▸ by decide
  obtain ⟨⟨preparation, k, index, hlast, ⟨-, hindex, -⟩, hk, -, hmeasure⟩, happly, -⟩ :=
    large_registers words [.script "U TENSOR H CNOT\nINITIALIZE Q 11 [00000000101]"] hv hlarge
  have hlast' : lastPreparation? (fresh.history (K := FloatComplex) words
      [.script "U TENSOR H CNOT\nINITIALIZE Q 11 [00000000101]"]) "Q" = some ("11", some "00000000101") := by
    decide +kernel
  obtain rfl := Option.some.inj (hlast'.symm.trans hlast)
  obtain rfl : 11 = k := hqubits.symm.trans hk
  have hfive : Store.basisIndex? 11 (some "00000000101") = .ok 5 := by rfl
  obtain rfl : 5 = index := Except.ok.inj (hfive.symm.trans hindex)
  obtain ⟨e, he, -⟩ := happly "U"
  refine ⟨⟨hv, hlarge⟩, fun words' => ?_, e, he⟩
  rw [hdrawn]
  exact hmeasure words'

end Machine
end Ketscript
