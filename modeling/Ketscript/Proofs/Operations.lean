import Ketscript.Proofs.Effects
import Ketscript.Proofs.NameMap

/-! What the instructions do. Each check of the store is opened once, and `Machine.Step` lists the four ways
    in which an instruction can succeed with everything that was checked: a register is made, a gate is
    defined, a gate is applied, or a register is measured. An instruction succeeds exactly if it takes a step,
    and one that fails leaves the machine as it is. -/

namespace Ketscript

/-- The name that an instruction defines, and the gates that it builds on from left to right. -/
def Instruction.definition? : Instruction → Option (String × List String)
  | concat name left right | tensor name left right => some (name, [left, right])
  | inverse name gate => some (name, [gate])
  | prepare .. | select .. | apply .. | measure .. => none

open Operation

namespace Store
variable {K : Type} {s t : Store K} {name : String}

/-! ### Names -/

theorem gateExists_iff :
    s.gateExists name = true ↔ isBuiltin name = true ∨ ∃ u, s.gates.find? name = some u := by
  rw [gateExists, Bool.or_eq_true, NameMap.contains_iff]

theorem checkDefinable_eq_ok : s.checkDefinable name = .ok () ↔
    isBuiltin name = false ∧ s.registers.contains name = false ∧ s.gates.contains name = false := by
  unfold checkDefinable
  cases isBuiltin name <;> cases s.registers.contains name <;> cases s.gates.contains name <;> simp

/-- The first gate from the left that does not exist is the one that is missed. -/
theorem forM_requireGate (s : Store K) (operands : List String) : operands.forM s.requireGate =
    match operands.find? (fun gate => !s.gateExists gate) with
    | none => .ok ()
    | some gate => .error (.noGate gate) := by
  induction operands with
  | nil => rfl
  | cons gate rest ih =>
    rw [List.forM_eq_forM, List.forM_cons, requireGate, List.find?_cons]
    cases s.gateExists gate with
    | false => rfl
    | true => exact ih

theorem checkDefinition_of_missing {operands : List String} {gate : String}
    (h : operands.find? (fun gate => !s.gateExists gate) = some gate) :
    s.checkDefinition name operands = .error (.noGate gate) := by
  rw [checkDefinition, forM_requireGate, h]
  rfl

theorem checkDefinition_of_exist {operands : List String} (h : ∀ gate ∈ operands, s.gateExists gate = true) :
    s.checkDefinition name operands = s.checkDefinable name := by
  have hnone : operands.find? (fun gate => !s.gateExists gate) = none :=
    List.find?_eq_none.mpr fun gate hgate => by simp [h gate hgate]
  rw [checkDefinition, forM_requireGate, hnone]
  rfl

theorem checkDefinition_eq_ok {operands : List String} : s.checkDefinition name operands = .ok () ↔
    (∀ gate ∈ operands, s.gateExists gate = true) ∧ s.checkDefinable name = .ok () := by
  cases h : operands.find? (fun gate => !s.gateExists gate) with
  | none =>
    have hexist : ∀ gate ∈ operands, s.gateExists gate = true := by simpa using h
    rw [checkDefinition_of_exist hexist]
    exact ⟨fun hfree => ⟨hexist, hfree⟩, And.right⟩
  | some gate =>
    have hmissing : ¬∀ gate ∈ operands, s.gateExists gate = true := fun hexist => by
      have hgate := List.find?_some h
      simp [hexist gate (List.mem_of_find?_eq_some h)] at hgate
    simp [checkDefinition_of_missing h, hmissing]

theorem define_eq_ok {u : Matrix K} : (define name u).on s = (.ok (), t) ↔
    s.checkDefinable name = .ok () ∧ t = { s with gates := s.gates.insert name u } := by
  simp only [define, on_get_bind, on_check_bind_eq_ok, on_modify, Prod.mk.injEq, true_and, eq_comm (b := t)]

theorem register?_eq_ok {register : String} {v : Ket K} :
    s.register? register = .ok v ↔ s.registers.find? register = some v := by
  unfold register?
  cases s.registers.find? register <;> simp

variable [Zero K] [One K]

/-- A new register is refused because of its name, then because of its number of qubits, then because of its bits. -/
theorem on_create (s : Store K) (name : String) (qubits : Nat) (bits : Option String) :
    (create name qubits bits).on s =
      if isBuiltin name then (.error (.builtinName name), s)
      else if s.gates.contains name then (.error (.gateName name), s)
      else if ¬(1 ≤ qubits ∧ qubits ≤ maxQubits) then (.error (.qubitCount qubits), s)
      else match basisIndex? qubits bits with
        | .ok index => (.ok (), { s with registers := s.registers.insert name (Ket.basis (1 <<< qubits) index) })
        | .error e => (.error e, s) := by
  simp only [create, on_get_bind, on_failIf_bind, on_lift_bind, on_modify]
  cases basisIndex? qubits bits <;> rfl

theorem create_eq_ok {qubits : Nat} {bits : Option String} : (create name qubits bits).on s = (.ok (), t) ↔
    isBuiltin name = false ∧ s.gates.contains name = false ∧ (1 ≤ qubits ∧ qubits ≤ maxQubits) ∧
      ∃ index, basisIndex? qubits bits = .ok index ∧
        t = { s with registers := s.registers.insert name (Ket.basis (1 <<< qubits) index) } := by
  simp only [create, on_get_bind, on_failIf_bind_eq_ok, on_lift_bind_eq_ok, on_modify, Bool.not_eq_true,
    Classical.not_not, Prod.mk.injEq, true_and, eq_comm (b := t)]

variable {R : Type} [RealScalar R] [Amplitude K R]

/-! ### Gates -/

theorem resolve_eq_ok {u : Matrix K} : s.resolve name = .ok u ↔
    (∃ b, Builtin.ofName? name = some b ∧ b.matrix? name = .ok u) ∨
      (isBuiltin name = false ∧ s.gates.find? name = some u) := by
  unfold resolve isBuiltin
  cases Builtin.ofName? name with
  | some b => simp
  | none => cases s.gates.find? name <;> simp

theorem gateExists_of_resolve {u : Matrix K} (h : s.resolve name = .ok u) : s.gateExists name = true := by
  rw [gateExists_iff]
  rcases resolve_eq_ok.mp h with ⟨b, hb, -⟩ | ⟨-, hu⟩
  · exact .inl (by rw [isBuiltin, hb]; rfl)
  · exact .inr ⟨u, hu⟩

/-- A new gate under a free name has its matrix. -/
theorem resolve_insert_self {u : Matrix K} (hfree : s.checkDefinable name = .ok ()) :
    Store.resolve { s with gates := s.gates.insert name u } name = .ok u :=
  resolve_eq_ok.mpr (.inr ⟨(checkDefinable_eq_ok.mp hfree).1, NameMap.find?_insert_self s.gates name u⟩)

theorem concat_eq_ok [Add K] [Mul K] [BEq K] {left right : String} {u : Matrix K} :
    s.concat left right = .ok u ↔
      ∃ a, s.resolve left = .ok a ∧ ∃ b, s.resolve right = .ok b ∧ a.cols = b.rows ∧ u = a.mul b := by
  simp only [concat, bind_eq_ok]
  refine exists_congr fun a => and_congr_right fun _ => exists_congr fun b => and_congr_right fun _ => ?_
  by_cases h : a.cols = b.rows
  · simp only [Matrix.mul?, h, if_true, pure_eq_ok, true_and]
  · simp [Matrix.mul?, Matrix.mismatch, h, throw, throwThe, MonadExceptOf.throw]

theorem tensor_eq_ok [Mul K] {left right : String} {u : Matrix K} :
    s.tensor left right = .ok u ↔ ∃ a, s.resolve left = .ok a ∧ ∃ b, s.resolve right = .ok b ∧
      a.rows * b.rows ≤ maxGateDimension ∧ u = a.tensor b := by
  simp only [tensor, bind_eq_ok, throw_if_eq_ok, pure_eq_ok, Nat.not_lt]

theorem inverse_eq_ok {gate : String} {u : Matrix K} :
    s.inverse gate = .ok u ↔ ∃ a, s.resolve gate = .ok a ∧ u = a.adjoint := by
  simp only [inverse, bind_eq_ok, pure_eq_ok]

theorem gateExists_of_concat [Add K] [Mul K] [BEq K] {left right : String} {u : Matrix K}
    (h : s.concat left right = .ok u) : ∀ gate ∈ [left, right], s.gateExists gate = true := by
  obtain ⟨a, hleft, b, hright, -⟩ := concat_eq_ok.mp h
  simp [gateExists_of_resolve hleft, gateExists_of_resolve hright]

theorem gateExists_of_tensor [Mul K] {left right : String} {u : Matrix K}
    (h : s.tensor left right = .ok u) : ∀ gate ∈ [left, right], s.gateExists gate = true := by
  obtain ⟨a, hleft, b, hright, -⟩ := tensor_eq_ok.mp h
  simp [gateExists_of_resolve hleft, gateExists_of_resolve hright]

theorem gateExists_of_inverse {gate : String} {u : Matrix K} (h : s.inverse gate = .ok u) :
    ∀ g ∈ [gate], s.gateExists g = true := by
  obtain ⟨a, hgate, -⟩ := inverse_eq_ok.mp h
  simp [gateExists_of_resolve hgate]

/-! ### Registers -/

theorem apply_eq_ok [Add K] [Mul K] {gate register : String} : (apply gate register).on s = (.ok (), t) ↔
    ∃ v, s.registers.find? register = some v ∧ ∃ u, s.resolve gate = .ok u ∧ (u.IsSquare ∧ u.rows = v.size) ∧
      t = { s with registers := s.registers.insert register (u.act v) } := by
  simp only [apply, on_get_bind, on_lift_bind_eq_ok, register?_eq_ok, on_failIf_bind_eq_ok, mapError_eq_ok, on_modify,
    not_or, Classical.not_not, Prod.mk.injEq, true_and]
  refine exists_congr fun v => and_congr_right fun _ => exists_congr fun u => and_congr_right fun _ => ?_
  refine and_congr_right fun h => ?_
  simp [Matrix.act?, h.1.symm.trans h.2, eq_comm]

theorem apply_of_error [Add K] [Mul K] {gate register : String} {v : Ket K} {e : InstructionError}
    (hregister : s.registers.find? register = some v) (hgate : s.resolve gate = .error e) :
    (apply gate register).on s = (.error e, s) := by
  simp only [apply, on_get_bind, on_lift_bind, register?_eq_ok.mpr hregister, hgate]

theorem apply_of_size [Add K] [Mul K] {gate register : String} {u : Matrix K} {v : Ket K}
    (hregister : s.registers.find? register = some v) (hgate : s.resolve gate = .ok u)
    (hsize : ¬u.IsSquare ∨ u.rows ≠ v.size) :
    (apply gate register).on s = (.error (.gateSize u.rows v.size), s) := by
  simp only [apply, on_get_bind, on_lift_bind, register?_eq_ok.mpr hregister, hgate, on_failIf_bind, if_pos hsize]

theorem measure_eq_ok {words : Nat → UInt64} {register : String} {drawn drawn' : Nat} {bits : Bits} :
    (s.measure words register).on drawn = (.ok bits, drawn') ↔
      ∃ v, s.registers.find? register = some v ∧ (0 : R) < Ket.normSq v ∧
        bits = Ket.outcomeAt v (Ket.unitPoint (words drawn)) ∧ drawn' = drawn + 1 := by
  simp only [measure, on_lift_bind_eq_ok, register?_eq_ok, on_failIf_bind_eq_ok, Classical.not_not]
  refine exists_congr fun v => and_congr_right fun _ => and_congr_right fun _ => ?_
  rw [on_bind, on_nextWord]
  simp [eq_comm]

theorem fst_measure_eq_ok {words : Nat → UInt64} {register : String} {drawn : Nat} {bits : Bits} :
    ((s.measure words register).on drawn).1 = .ok bits ↔ ∃ v, s.registers.find? register = some v ∧
      (0 : R) < Ket.normSq v ∧ bits = Ket.outcomeAt v (Ket.unitPoint (words drawn)) := by
  constructor
  · intro h
    obtain ⟨v, hregister, hnorm, hbits, -⟩ := measure_eq_ok.mp (Prod.ext h rfl)
    exact ⟨v, hregister, hnorm, hbits⟩
  · rintro ⟨v, hregister, hnorm, hbits⟩
    exact congrArg Prod.fst (measure_eq_ok.mpr ⟨v, hregister, hnorm, hbits, rfl⟩)

/-- Whether a register can be measured does not depend on the words, and only the outcome does. -/
theorem measure_cases (s : Store K) (register : String) :
    (∃ e, ∀ words drawn, (s.measure words register).on drawn = (.error e, drawn)) ∨
      ∃ v : Ket K, s.registers.find? register = some v ∧ ∀ words drawn,
        (s.measure words register).on drawn = (.ok (Ket.outcomeAt v (Ket.unitPoint (words drawn))), drawn + 1) := by
  cases hregister : s.registers.find? register with
  | none =>
    refine .inl ⟨.noRegister register, fun words drawn => ?_⟩
    rw [measure, register?, hregister, on_lift_bind]
  | some v =>
    by_cases hnorm : (0 : R) < Ket.normSq v
    · exact .inr ⟨v, rfl, fun words drawn => measure_eq_ok.mpr ⟨v, hregister, hnorm, rfl, rfl⟩⟩
    · refine .inl ⟨.zeroNorm register, fun words drawn => ?_⟩
      rw [measure, register?_eq_ok.mpr hregister, on_lift_bind]
      exact (on_failIf_bind ..).trans (if_pos hnorm)

/-- The matrix that an instruction computes for a new gate. -/
inductive Defines [Add K] [Mul K] [BEq K] (s : Store K) : Instruction → String → Matrix K → Prop
  | concat {name left right a b} (hleft : s.resolve left = .ok a) (hright : s.resolve right = .ok b)
      (hinner : a.cols = b.rows) : Defines s (.concat name left right) name (a.mul b)
  | tensor {name left right a b} (hleft : s.resolve left = .ok a) (hright : s.resolve right = .ok b)
      (hsize : a.rows * b.rows ≤ maxGateDimension) : Defines s (.tensor name left right) name (a.tensor b)
  | inverse {name gate a} (hgate : s.resolve gate = .ok a) : Defines s (.inverse name gate) name a.adjoint

end Store

namespace Machine
variable {K R : Type} {m m' : Machine K}

/-! ### Answers -/

theorem onStore_eq_ok {α : Type} {x : Operation (Store K) α} {a : α} :
    (onStore x).on m = (.ok a, m') ↔ ∃ t, x.on m.store = (.ok a, t) ∧ m' = { m with store := t } := on_onPart_eq_ok

/-- An operation on the store after which there is no outcome. -/
theorem onStore_bind_pure {x : Operation (Store K) Unit} {result : Except InstructionError Unit} {t : Store K}
    (h : x.on m.store = (result, t)) :
    (onStore x >>= fun _ => pure none : Operation (Machine K) (Option Bits)).on m =
      (result.map fun _ => none, { m with store := t }) := by
  refine on_bind_pure_of_on ?_ none
  rw [onStore, on_onPart, h]

theorem qubitCount_eq_ok {literal : String} {n : Nat} :
    qubitCount literal = .ok n ↔ Text.count? literal = some n := by
  unfold qubitCount
  cases Text.count? literal <;> simp

/-- A definition succeeds if its matrix can be computed and its name is free: the gates it builds on then
    exist. -/
theorem defineGate_eq_ok {name : String} {operands : List String}
    {matrix? : Store K → Except InstructionError (Matrix K)}
    (hx : ∀ u, matrix? m.store = .ok u → ∀ gate ∈ operands, m.store.gateExists gate = true) :
    (defineGate name operands matrix?).on m = (.ok (), m') ↔
      ∃ u, matrix? m.store = .ok u ∧ m.store.checkDefinable name = .ok () ∧
        m' = { m with store := { m.store with gates := m.store.gates.insert name u } } := by
  rw [defineGate, on_get_bind, on_check_bind_eq_ok, Store.checkDefinition_eq_ok]
  simp only [on_lift_bind_eq_ok, onStore_eq_ok, Store.define_eq_ok]
  constructor
  · rintro ⟨-, u, hu, t, ⟨hfree, rfl⟩, hm'⟩
    exact ⟨u, hu, hfree, hm'⟩
  · rintro ⟨u, hu, hfree, hm'⟩
    exact ⟨⟨hx u hu, hfree⟩, u, hu, _, ⟨hfree, rfl⟩, hm'⟩

/-! ### Steps -/

variable [RealScalar R] [Amplitude K R] [Add K] [Mul K] [Zero K] [One K] [BEq K]

/-- A preparation comes to what the store makes of it. -/
theorem run_prepare (words : Nat → UInt64) (m : Machine K) {register literal : String} {state : Option String} {k : Nat}
    (h : qubitCount literal = .ok k) : m.run words (.prepare register literal state) =
      (((Store.create register k state).on m.store).1.map fun _ => none,
        { m with store := ((Store.create register k state).on m.store).2 }) := by
  rw [run, perform, on_lift_bind, h]
  exact onStore_bind_pure rfl

/-- A measurement comes to what the store gives. -/
theorem run_measure (words : Nat → UInt64) (m : Machine K) {register : String} {result : Except InstructionError Bits}
    {drawn : Nat} (hmeasure : (m.store.measure words register).on m.drawn = (result, drawn)) :
    m.run words (.measure register) = (result.map some, { m with drawn }) := by
  rw [run, perform, on_get_bind, on_bind, onStream, on_onPart, hmeasure]
  cases result <;> rfl

/-- A successful instruction: what was checked, its answer, and the machine after it. -/
inductive Step (words : Nat → UInt64) (m : Machine K) : Instruction → Option Bits → Machine K → Prop
  | prepare {register qubits state k index} (hcount : Text.count? qubits = some k)
      (hbuiltin : Store.isBuiltin register = false) (hgate : m.store.gates.contains register = false)
      (hqubits : 1 ≤ k ∧ k ≤ maxQubits) (hindex : Store.basisIndex? k state = .ok index) :
      Step words m (.prepare register qubits state) none
        { m with store := { m.store with
          registers := m.store.registers.insert register (Ket.basis (1 <<< k) index) } }
  | define {i name u} (hdefines : m.store.Defines i name u) (hfree : m.store.checkDefinable name = .ok ()) :
      Step words m i none { m with store := { m.store with gates := m.store.gates.insert name u } }
  | apply {gate register v u} (hregister : m.store.registers.find? register = some v)
      (hgate : m.store.resolve gate = .ok u) (hsize : u.IsSquare ∧ u.rows = v.size) :
      Step words m (.apply gate register) none
        { m with store := { m.store with registers := m.store.registers.insert register (u.act v) } }
  | measure {register v} (hregister : m.store.registers.find? register = some v)
      (hnorm : (0 : R) < Ket.normSq v) :
      Step words m (.measure register) (some (Ket.outcomeAt v (Ket.unitPoint (words m.drawn))))
        { m with drawn := m.drawn + 1 }

variable {words : Nat → UInt64} {i : Instruction} {a : Option Bits}

theorem step_of_run (h : m.run words i = (.ok a, m')) : m.Step words i a m' := by
  cases i with
  | prepare register qubits state =>
    simp only [run, perform, on_lift_bind_eq_ok, qubitCount_eq_ok, on_bind_pure_eq_ok, onStore_eq_ok,
      Store.create_eq_ok] at h
    obtain ⟨k, hcount, ⟨t, ⟨hbuiltin, hgate, hqubits, index, hindex, rfl⟩, rfl⟩, rfl⟩ := h
    exact .prepare hcount hbuiltin hgate hqubits hindex
  | select => cases h
  | concat name left right =>
    obtain ⟨hdefine, rfl⟩ := on_bind_pure_eq_ok.mp h
    obtain ⟨u, hu, hfree, rfl⟩ := (defineGate_eq_ok fun _ => Store.gateExists_of_concat).mp hdefine
    obtain ⟨x, hleft, y, hright, hinner, rfl⟩ := Store.concat_eq_ok.mp hu
    exact .define (.concat hleft hright hinner) hfree
  | tensor name left right =>
    obtain ⟨hdefine, rfl⟩ := on_bind_pure_eq_ok.mp h
    obtain ⟨u, hu, hfree, rfl⟩ := (defineGate_eq_ok fun _ => Store.gateExists_of_tensor).mp hdefine
    obtain ⟨x, hleft, y, hright, hsize, rfl⟩ := Store.tensor_eq_ok.mp hu
    exact .define (.tensor hleft hright hsize) hfree
  | inverse name gate =>
    obtain ⟨hdefine, rfl⟩ := on_bind_pure_eq_ok.mp h
    obtain ⟨u, hu, hfree, rfl⟩ := (defineGate_eq_ok fun _ => Store.gateExists_of_inverse).mp hdefine
    obtain ⟨x, hgate, rfl⟩ := Store.inverse_eq_ok.mp hu
    exact .define (.inverse hgate) hfree
  | apply gate register =>
    obtain ⟨hstore, rfl⟩ := on_bind_pure_eq_ok.mp h
    obtain ⟨t, ht, rfl⟩ := onStore_eq_ok.mp hstore
    obtain ⟨v, hregister, u, hgate, hsize, rfl⟩ := Store.apply_eq_ok.mp ht
    exact .apply hregister hgate hsize
  | measure register =>
    rcases hmeasure : (m.store.measure words register).on m.drawn with ⟨e | bits, drawn⟩
    · cases (run_measure words m hmeasure).symm.trans h
    · cases (run_measure words m hmeasure).symm.trans h
      obtain ⟨v, hregister, hnorm, rfl, rfl⟩ := Store.measure_eq_ok.mp hmeasure
      exact .measure hregister hnorm

theorem Step.run_eq (h : m.Step words i a m') : m.run words i = (.ok a, m') := by
  cases h with
  | prepare hcount hbuiltin hgate hqubits hindex =>
    rw [run_prepare words m (qubitCount_eq_ok.mpr hcount),
      Store.create_eq_ok.mpr ⟨hbuiltin, hgate, hqubits, _, hindex, rfl⟩]
    rfl
  | define hdefines hfree =>
    cases hdefines with
    | concat hleft hright hinner =>
      refine on_bind_pure_eq_ok.mpr ⟨?_, rfl⟩
      exact (defineGate_eq_ok fun _ => Store.gateExists_of_concat).mpr
        ⟨_, Store.concat_eq_ok.mpr ⟨_, hleft, _, hright, hinner, rfl⟩, hfree, rfl⟩
    | tensor hleft hright hsize =>
      refine on_bind_pure_eq_ok.mpr ⟨?_, rfl⟩
      exact (defineGate_eq_ok fun _ => Store.gateExists_of_tensor).mpr
        ⟨_, Store.tensor_eq_ok.mpr ⟨_, hleft, _, hright, hsize, rfl⟩, hfree, rfl⟩
    | inverse hgate =>
      refine on_bind_pure_eq_ok.mpr ⟨?_, rfl⟩
      exact (defineGate_eq_ok fun _ => Store.gateExists_of_inverse).mpr
        ⟨_, Store.inverse_eq_ok.mpr ⟨_, hgate, rfl⟩, hfree, rfl⟩
  | apply hregister hgate hsize =>
    have happly := Store.apply_eq_ok.mpr ⟨_, hregister, _, hgate, hsize, rfl⟩
    exact on_bind_pure_eq_ok.mpr ⟨onStore_eq_ok.mpr ⟨_, happly, rfl⟩, rfl⟩
  | @measure register v hregister hnorm =>
    exact run_measure words m (Store.measure_eq_ok.mpr ⟨v, hregister, hnorm, rfl, rfl⟩)

theorem run_eq_ok_iff : m.run words i = (.ok a, m') ↔ m.Step words i a m' := ⟨step_of_run, Step.run_eq⟩

theorem run_concat (words : Nat → UInt64) (m : Machine K) {name left right : String} {u w : Matrix K}
    (hleft : m.store.resolve left = .ok u) (hright : m.store.resolve right = .ok w) (hinner : u.cols = w.rows)
    (hfree : m.store.checkDefinable name = .ok ()) : m.run words (.concat name left right) =
      (.ok none, { m with store := { m.store with gates := m.store.gates.insert name (u.mul w) } }) :=
  Step.run_eq (.define (.concat hleft hright hinner) hfree)

theorem run_apply (words : Nat → UInt64) (m : Machine K) {gate register : String} {u : Matrix K} {v : Ket K}
    (hregister : m.store.registers.find? register = some v) (hgate : m.store.resolve gate = .ok u)
    (hsize : u.IsSquare ∧ u.rows = v.size) : m.run words (.apply gate register) =
      (.ok none, { m with store := { m.store with
        registers := m.store.registers.insert register (u.act v) } }) :=
  Step.run_eq (.apply hregister hgate hsize)

/-- An instruction fails and leaves the machine as it is, or it succeeds. -/
theorem run_cases (words : Nat → UInt64) (m : Machine K) (i : Instruction) :
    (∃ e, m.run words i = (.error e, m)) ∨ ∃ a m', m.run words i = (.ok a, m') := by
  rcases h : m.run words i with ⟨e | a, m'⟩
  · have hm' : (m.run words i).2 = m := atomic_perform words i m e (congrArg Prod.fst h)
    rw [h] at hm'
    exact .inl ⟨e, Prod.ext rfl hm'⟩
  · exact .inr ⟨a, m', rfl⟩

/-! ### Lines -/

theorem execute_of_ofLine? (words : Nat → UInt64) (m : Machine K) {line : String}
    (h : Instruction.ofLine? line = .ok i) : m.execute words line = m.run words i := by
  rw [execute, performLine, on_lift_bind, h]
  rfl

theorem execute_of_syntaxError (words : Nat → UInt64) (m : Machine K) {line : String} {cause : SyntaxError}
    (h : Instruction.ofLine? line = .error cause) : m.execute words line = (.error (.invalidSyntax cause), m) := by
  rw [execute, performLine, on_lift_bind, h]
  rfl

end Machine
end Ketscript
