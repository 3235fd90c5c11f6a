import Ketscript.Binary64.Scalar
import Ketscript.Proofs.BuiltinGates
import Ketscript.Proofs.Registers
import Ketscript.Proofs.Runs
import Ketscript.Proofs.Spelling

/-! The invariant of the store. Registers, defined gates and builtin gates have different names. A register has
    the length that the last instruction to make it asked for, and a defined gate is a square matrix that is
    not too large. Only instructions bring names into the store, so all of them are well spelled if the
    instructions were read from text. Every step keeps this, so it holds after any calls. -/

namespace Ketscript

/-! ### Numbers of qubits -/

/-- The number of qubits that an instruction gives a register. -/
def Instruction.qubits? (register : String) : Instruction → Option Nat
  | prepare name qubits _ => if name = register then Text.count? qubits else none
  | _ => none

/-- The number of qubits that the last instruction to make a register gave it. -/
def lastQubits? (past : List Instruction) (register : String) : Option Nat :=
  (past.filterMap (Instruction.qubits? register)).getLast?

theorem lastQubits?_append_of_some {past : List Instruction} {i : Instruction} {register : String} {k : Nat}
    (h : i.qubits? register = some k) : lastQubits? (past ++ [i]) register = some k := by
  simp [lastQubits?, h]

theorem lastQubits?_append_of_none {past : List Instruction} {i : Instruction} {register : String}
    (h : i.qubits? register = none) : lastQubits? (past ++ [i]) register = lastQubits? past register := by
  simp [lastQubits?, h]

/-! ### The invariant -/

namespace Store
variable {K : Type} {s : Store K} {past : List Instruction}

/-- What holds of a store that instructions have led to. -/
structure Sound (s : Store K) (past : List Instruction) : Prop where
  register_not_gate : ∀ name, s.registers.contains name = true → s.gates.contains name = false
  register_not_builtin : ∀ name, s.registers.contains name = true → isBuiltin name = false
  gate_not_builtin : ∀ name, s.gates.contains name = true → isBuiltin name = false
  /-- The length of a register is that of its last making, and its number of qubits is read from it. -/
  register_qubits : ∀ name v, s.registers.find? name = some v →
    ∃ k, lastQubits? past name = some k ∧ 1 ≤ k ∧ k ≤ maxQubits ∧ v.size = 2 ^ k ∧ v.qubits = k
  gate_shape : ∀ name u, s.gates.find? name = some u →
    ∃ n, 1 ≤ n ∧ n ≤ maxGateDimension ∧ u.rows = n ∧ u.cols = n ∧ u.entries.size = n * n
  /-- Some instruction has bound every name. -/
  bound : ∀ name, s.registers.contains name = true ∨ s.gates.contains name = true →
    ∃ i ∈ past, i.bound? = some name

theorem Sound.empty : (Store.empty : Store K).Sound [] where
  register_not_gate name _ := NameMap.contains_empty name
  register_not_builtin name h := by cases (NameMap.contains_empty name).symm.trans h
  gate_not_builtin name h := by cases (NameMap.contains_empty name).symm.trans h
  register_qubits name v h := by cases (NameMap.find?_empty name).symm.trans h
  gate_shape name u h := by cases (NameMap.find?_empty name).symm.trans h
  bound name h := by rcases h with h | h <;> cases (NameMap.contains_empty name).symm.trans h

theorem Sound.not_gate (h : s.Sound past) {name : String} (hname : s.registers.contains name = true) :
    s.gateExists name = false := by
  rw [gateExists, Bool.or_eq_false_iff]
  exact ⟨h.register_not_builtin name hname, h.register_not_gate name hname⟩

/-- Instructions that bind nothing keep the invariant. -/
theorem Sound.past_append (h : s.Sound past) {i : Instruction} (hi : ∀ name, i.qubits? name = none) :
    s.Sound (past ++ [i]) where
  register_not_gate := h.register_not_gate
  register_not_builtin := h.register_not_builtin
  gate_not_builtin := h.gate_not_builtin
  register_qubits name v hv := by
    rw [lastQubits?_append_of_none (hi name)]
    exact h.register_qubits name v hv
  gate_shape := h.gate_shape
  bound name hname := by
    obtain ⟨j, hj, hbound⟩ := h.bound name hname
    exact ⟨j, List.mem_append_left _ hj, hbound⟩

/-- A new register under a name that is no gate's. -/
theorem Sound.prepare (h : s.Sound past) {register qubits : String} {state : Option String} {k index : Nat}
    [Zero K] [One K] (hcount : Text.count? qubits = some k) (hbuiltin : isBuiltin register = false)
    (hgate : s.gates.contains register = false) (hqubits : 1 ≤ k ∧ k ≤ maxQubits) :
    Sound { s with registers := s.registers.insert register (Ket.basis (1 <<< k) index) }
      (past ++ [.prepare register qubits state]) where
  register_not_gate name hname := by
    rcases NameMap.contains_insert_iff.mp hname with rfl | hname
    · exact hgate
    · exact h.register_not_gate name hname
  register_not_builtin name hname := by
    rcases NameMap.contains_insert_iff.mp hname with rfl | hname
    · exact hbuiltin
    · exact h.register_not_builtin name hname
  gate_not_builtin := h.gate_not_builtin
  register_qubits name v hv := by
    rcases NameMap.find?_insert_eq_some.mp hv with ⟨rfl, rfl⟩ | ⟨hne, hv⟩
    · have hk : Instruction.qubits? name (.prepare name qubits state) = some k := by
        rw [Instruction.qubits?, if_pos rfl, hcount]
      have hsize : (Ket.basis (1 <<< k) index : Ket K).size = 2 ^ k := by rw [Ket.size_basis, Nat.one_shiftLeft]
      exact ⟨k, lastQubits?_append_of_some hk, hqubits.1, hqubits.2, hsize, Ket.qubits_of_size hsize hqubits.2⟩
    · have hnone : Instruction.qubits? name (.prepare register qubits state) = none := if_neg (Ne.symm hne)
      rw [lastQubits?_append_of_none hnone]
      exact h.register_qubits name v hv
  gate_shape := h.gate_shape
  bound name hname := by
    rw [NameMap.contains_insert_iff, or_assoc] at hname
    rcases hname with rfl | hname
    · exact ⟨_, List.mem_append_right _ List.mem_cons_self, rfl⟩
    · obtain ⟨j, hj, hbound⟩ := h.bound name hname
      exact ⟨j, List.mem_append_left _ hj, hbound⟩

/-- A new gate under a free name. -/
theorem Sound.define (h : s.Sound past) {name : String} {u : Matrix K} (hfree : s.checkDefinable name = .ok ())
    (hsquare : u.IsSquare) (hmax : u.rows ≤ maxGateDimension) {i : Instruction} (hi : i.bound? = some name)
    (hqubits : ∀ register, i.qubits? register = none) :
    Sound { s with gates := s.gates.insert name u } (past ++ [i]) where
  register_not_gate other hother := by
    obtain ⟨-, hregister, -⟩ := checkDefinable_eq_ok.mp hfree
    rw [NameMap.contains_insert, Bool.or_eq_false_iff, beq_eq_false_iff_ne]
    refine ⟨?_, h.register_not_gate other hother⟩
    rintro rfl
    cases hregister.symm.trans hother
  register_not_builtin := h.register_not_builtin
  gate_not_builtin other hother := by
    rcases NameMap.contains_insert_iff.mp hother with rfl | hother
    · exact (checkDefinable_eq_ok.mp hfree).1
    · exact h.gate_not_builtin other hother
  register_qubits := (h.past_append hqubits).register_qubits
  gate_shape other w hw := by
    rcases NameMap.find?_insert_eq_some.mp hw with ⟨rfl, rfl⟩ | ⟨-, hw⟩
    · exact ⟨u.rows, u.rows_pos, hmax, rfl, hsquare.symm, hsquare ▸ u.size_entries⟩
    · exact h.gate_shape other w hw
  bound other hother := by
    rw [NameMap.contains_insert_iff, or_left_comm] at hother
    rcases hother with rfl | hother
    · exact ⟨i, List.mem_append_right _ List.mem_cons_self, hi⟩
    · exact (h.past_append hqubits).bound other hother

theorem Sound.update (h : s.Sound past) {register : String} {v w : Ket K} (hv : s.registers.find? register = some v)
    (hsize : w.size = v.size) : Sound { s with registers := s.registers.insert register w } past := by
  have hcontains (name : String) : (s.registers.insert register w).contains name = s.registers.contains name := by
    rw [NameMap.contains_insert]
    by_cases hname : name = register
    · rw [hname, NameMap.contains_of_find? hv, Bool.or_true]
    · rw [beq_eq_false_iff_ne.mpr hname, Bool.false_or]
  exact {
    register_not_gate := fun name hname => h.register_not_gate name (hcontains name ▸ hname)
    register_not_builtin := fun name hname => h.register_not_builtin name (hcontains name ▸ hname)
    gate_not_builtin := h.gate_not_builtin
    register_qubits := fun name x hx => by
      rcases NameMap.find?_insert_eq_some.mp hx with ⟨rfl, rfl⟩ | ⟨-, hx⟩
      · obtain ⟨k, hlast, hone, hmax, hk, -⟩ := h.register_qubits name v hv
        exact ⟨k, hlast, hone, hmax, hsize.trans hk, Ket.qubits_of_size (hsize.trans hk) hmax⟩
      · exact h.register_qubits name x hx
    gate_shape := h.gate_shape
    bound := fun name hname => h.bound name (hcontains name ▸ hname) }

variable {R : Type} [RealScalar R] [Amplitude K R] [Zero K] [One K]

theorem Sound.resolve (h : s.Sound past) {name : String} {u : Matrix K} (hu : s.resolve name = .ok u) :
    u.IsSquare ∧ u.rows ≤ maxGateDimension := by
  rcases resolve_eq_ok.mp hu with ⟨b, -, hb⟩ | ⟨-, hu⟩
  · exact Builtin.matrix?_square hb
  · obtain ⟨n, -, hmax, hrows, hcols, -⟩ := h.gate_shape name u hu
    exact ⟨hrows.trans hcols.symm, hrows ▸ hmax⟩

theorem Sound.defines [Add K] [Mul K] [BEq K] (h : s.Sound past) {i : Instruction} {name : String} {u : Matrix K}
    (hu : s.Defines i name u) : u.IsSquare ∧ u.rows ≤ maxGateDimension := by
  cases hu with
  | concat hleft hright hinner =>
    obtain ⟨hsquare, hmax⟩ := h.resolve hleft
    exact ⟨(hsquare.trans hinner).trans (h.resolve hright).1, hmax⟩
  | tensor hleft hright hsize =>
    exact ⟨congrArg₂ (· * ·) (h.resolve hleft).1 (h.resolve hright).1, hsize⟩
  | inverse hgate =>
    obtain ⟨hsquare, hmax⟩ := h.resolve hgate
    exact ⟨hsquare.symm, Nat.le_trans (Nat.le_of_eq hsquare.symm) hmax⟩

end Store

namespace Machine
variable {K R : Type} [RealScalar R] [Amplitude K R] [Add K] [Mul K] [Zero K] [One K] [BEq K]
variable {words : Nat → UInt64} {m m' : Machine K} {past : List Instruction}

theorem Step.sound {i : Instruction} {a : Option Bits} (h : m.store.Sound past) (hstep : m.Step words i a m') :
    m'.store.Sound (past ++ [i]) := by
  cases hstep with
  | prepare hcount hbuiltin hgate hqubits hindex => exact h.prepare hcount hbuiltin hgate hqubits
  | define hdefines hfree =>
    obtain ⟨hsquare, hmax⟩ := h.defines hdefines
    cases hdefines with
    | concat hleft hright hinner => exact h.define hfree hsquare hmax rfl fun _ => rfl
    | tensor hleft hright hsize => exact h.define hfree hsquare hmax rfl fun _ => rfl
    | inverse hgate => exact h.define hfree hsquare hmax rfl fun _ => rfl
  | apply hregister hgate hsize =>
    exact (h.update hregister ((Matrix.size_act _ _).trans hsize.2)).past_append fun _ => rfl
  | measure hregister hnorm => exact h.past_append fun _ => rfl

theorem sound_history (words : Nat → UInt64) (cs : List Call) :
    (fresh.calls words cs : Machine K).store.Sound (fresh.history (K := K) words cs) :=
  (calls_steps words cs (fresh : Machine K)).invariant (P := fun past m => m.store.Sound past)
    (fun _ _ _ _ _ h hstep => hstep.sound h) [] Store.Sound.empty

/-- The store is sound after any calls, and has only well spelled names if all calls were made with text. -/
theorem sound_calls (words : Nat → UInt64) (cs : List Call) :
    (fresh.calls words cs : Machine K).store.Sound (fresh.history (K := K) words cs) ∧
      ((∀ c ∈ cs, c.IsText) → ∀ name,
        (fresh.calls words cs : Machine K).store.registers.contains name = true ∨
          (fresh.calls words cs : Machine K).store.gates.contains name = true → isName name = true) := by
  have hsound := sound_history (K := K) words cs
  refine ⟨hsound, fun htext name hname => ?_⟩
  obtain ⟨i, hi, hbound⟩ := hsound.bound name hname
  obtain ⟨line, hline⟩ := spelled_history htext hi
  exact Instruction.isName_of_ofLine? hline hbound

theorem sound_calls_script :
    let m : Machine FloatComplex := fresh.calls (fun _ => 0) [.script "INITIALIZE Q 2\nU CONCAT H R0.5\n"]
    (m.store.registers.contains "Q" = true ∧ m.store.gates.contains "U" = true) ∧
      isName "Q" = true ∧ isName "U" = true := by
  have hq : (fresh.calls (fun _ => 0) [.script "INITIALIZE Q 2\nU CONCAT H R0.5\n"] :
      Machine FloatComplex).store.registers.contains "Q" = true := by decide +kernel
  have hu : (fresh.calls (fun _ => 0) [.script "INITIALIZE Q 2\nU CONCAT H R0.5\n"] :
      Machine FloatComplex).store.gates.contains "U" = true := by decide +kernel
  have hnames := (sound_calls (K := FloatComplex) (fun _ => 0)
    [.script "INITIALIZE Q 2\nU CONCAT H R0.5\n"]).2 (by simp [Call.IsText])
  exact ⟨⟨hq, hu⟩, hnames "Q" (.inl hq), hnames "U" (.inr hu)⟩

end Machine
end Ketscript
