import Ketscript.Proofs.BuiltinGates
import Ketscript.Proofs.Operations

/-! Refusals. The store checks names, sizes and counts before it computes, so an operation on it fails because of
    one of these and never within linear algebra. Only a new register may also have bits that are no state. -/

namespace Ketscript

/-- Neither the text of an instruction is at fault nor linear algebra. -/
def InstructionError.IsRefusal : InstructionError → Prop
  | invalidSyntax _ | linear _ => False
  | noGate _ | noRegister _ | builtinName _ | registerName _ | gateName _ | concatSizes .. | gateSize ..
  | selectUnsupported | qubitCount _ | gateTooLarge _ | zeroNorm _ => True

/-- If the computation fails, then by a refusal. -/
def Refuses {α : Type} (x : Except InstructionError α) : Prop := ∀ e, x = .error e → e.IsRefusal

namespace Refuses
variable {α β : Type} {x : Except InstructionError α} {f : α → Except InstructionError β} {e : InstructionError}

theorem ok (a : α) : Refuses (.ok a) := by
  intro e h
  cases h

theorem error (he : e.IsRefusal) : Refuses (.error e : Except InstructionError α) := by
  intro e' h
  cases h
  exact he

theorem bind (hx : Refuses x) (hf : ∀ a, Refuses (f a)) : Refuses (x >>= f) := by
  cases x with
  | error e => exact .error (hx e rfl)
  | ok a => exact hf a

theorem throw_if {p : Prop} [Decidable p] {f : Unit → Except InstructionError β} (he : e.IsRefusal)
    (hf : ¬p → Refuses (f ())) : Refuses (if p then throw e >>= f else f ()) := by
  by_cases hp : p
  · rw [if_pos hp]
    exact .error he
  · rw [if_neg hp]
    exact hf hp

/-! ### Operations -/

open Operation
variable {S : Type} {s : S}

theorem lift_bind {y : Except InstructionError α} {f : α → Operation S β} (hy : Refuses y)
    (hf : ∀ a, Refuses ((f a).on s).1) : Refuses (((liftM y : Operation S α) >>= f).on s).1 := by
  rw [on_lift_bind]
  cases y with
  | error e => exact .error (hy e rfl)
  | ok a => exact hf a

theorem failIf_bind {p : Prop} [Decidable p] {f : Unit → Operation S β} (he : e.IsRefusal)
    (hf : ¬p → Refuses ((f ()).on s).1) : Refuses ((failIf p e >>= f).on s).1 := by
  rw [on_failIf_bind]
  by_cases hp : p
  · rw [if_pos hp]
    exact .error he
  · rw [if_neg hp]
    exact hf hp

theorem bind_pure {x : Operation S α} {b : β} (hx : Refuses (x.on s).1) :
    Refuses ((x >>= fun _ => pure b).on s).1 := by
  rw [on_bind_pure]
  rcases h : (x.on s).1 with e | a
  · exact .error (hx e h)
  · exact .ok b

end Refuses

open Operation

theorem Builtin.refuses_matrix? {K R : Type} [RealScalar R] [Amplitude K R] [Zero K] [One K] (b : Builtin)
    (name : String) : Refuses (b.matrix? name : Except InstructionError (Matrix K)) := by
  cases b with
  | hadamard =>
    rw [matrix?_hadamard]
    exact .ok _
  | cnot =>
    rw [matrix?_cnot]
    exact .ok _
  | identity n =>
    rw [matrix?_identity]
    split
    · exact .error trivial
    · split
      · exact .ok _
      · exact .error trivial
  | phase value places =>
    rw [matrix?_phase]
    exact .ok _

namespace Store
variable {K R : Type} (s : Store K) (name : String)

theorem refuses_requireGate : Refuses (s.requireGate name) := by
  unfold requireGate
  split
  · exact .ok ()
  · exact .error trivial

theorem refuses_checkDefinable : Refuses (s.checkDefinable name) := by
  unfold checkDefinable
  split
  · exact .error trivial
  · split
    · exact .error trivial
    · split
      · exact .error trivial
      · exact .ok ()

theorem refuses_checkDefinition (operands : List String) : Refuses (s.checkDefinition name operands) := by
  have hall (l : List String) : Refuses (l.forM s.requireGate) := by
    induction l with
    | nil => exact .ok ()
    | cons gate rest ih => exact (s.refuses_requireGate gate).bind fun _ => ih
  exact (hall operands).bind fun _ => s.refuses_checkDefinable name

theorem refuses_define (u : Matrix K) : Refuses ((define name u).on s).1 := by
  rw [define, on_get_bind]
  exact .lift_bind (s.refuses_checkDefinable name) fun _ => .ok _

theorem refuses_register? : Refuses (s.register? name) := by
  unfold register?
  split
  · exact .ok _
  · exact .error trivial

variable [RealScalar R] [Amplitude K R] [Zero K] [One K]

theorem refuses_resolve : Refuses (s.resolve name) := by
  unfold resolve
  split
  · exact Builtin.refuses_matrix? _ name
  · split
    · exact .ok _
    · exact .error trivial

theorem refuses_concat [Add K] [Mul K] [BEq K] (left right : String) : Refuses (s.concat left right) := by
  refine (s.refuses_resolve left).bind fun a => (s.refuses_resolve right).bind fun b => ?_
  -- A product can fail only because of the sizes, which is reported as such.
  unfold Matrix.mul? Matrix.mismatch
  by_cases h : a.cols = b.rows
  · rw [if_pos h]
    exact .ok _
  · rw [if_neg h]
    exact .error trivial

theorem refuses_tensor [Mul K] (left right : String) : Refuses (s.tensor left right) :=
  (s.refuses_resolve left).bind fun _ => (s.refuses_resolve right).bind fun _ => .throw_if trivial fun _ => .ok _

theorem refuses_inverse (gate : String) : Refuses (s.inverse gate) := (s.refuses_resolve gate).bind fun _ => .ok _

theorem refuses_apply [Add K] [Mul K] (gate register : String) : Refuses ((apply gate register).on s).1 := by
  rw [apply, on_get_bind]
  refine .lift_bind (s.refuses_register? register) fun v => ?_
  refine .lift_bind (s.refuses_resolve gate) fun u => ?_
  refine .failIf_bind trivial fun hsize => ?_
  -- The gate is square and as large as the register, so it can act on it.
  simp only [not_or, Classical.not_not] at hsize
  unfold Matrix.act?
  rw [if_pos (hsize.1.symm.trans hsize.2)]
  exact .ok _

theorem refuses_measure (words : Nat → UInt64) (register : String) (drawn : Nat) :
    Refuses ((s.measure words register).on drawn).1 :=
  .lift_bind (s.refuses_register? register) fun _ => .failIf_bind trivial fun _ => .ok _

end Store

namespace Machine
variable {K R : Type} {m : Machine K}

theorem refuses_defineGate {name : String} {operands : List String}
    {matrix? : Store K → Except InstructionError (Matrix K)} (h : Refuses (matrix? m.store)) :
    Refuses ((defineGate name operands matrix?).on m).1 := by
  rw [defineGate, on_get_bind]
  refine .lift_bind (m.store.refuses_checkDefinition name operands) fun _ => ?_
  exact .lift_bind h fun u => m.store.refuses_define name u

variable [RealScalar R] [Amplitude K R] [Add K] [Mul K] [Zero K] [One K] [BEq K]

/-- Every instruction but the making of a register fails by a refusal only. -/
theorem refuses_run (words : Nat → UInt64) (m : Machine K) {i : Instruction} (hi : i.keyword ≠ .prepare) :
    Refuses (m.run words i).1 := by
  cases i with
  | prepare => exact absurd rfl hi
  | select => exact .error trivial
  | concat name left right => exact .bind_pure (refuses_defineGate (m.store.refuses_concat left right))
  | tensor name left right => exact .bind_pure (refuses_defineGate (m.store.refuses_tensor left right))
  | inverse name gate => exact .bind_pure (refuses_defineGate (m.store.refuses_inverse gate))
  | apply gate register => exact .bind_pure (m.store.refuses_apply gate register)
  | measure register =>
    have hrefuses := m.store.refuses_measure words register m.drawn
    rcases hmeasure : (m.store.measure words register).on m.drawn with ⟨e | bits, drawn⟩
    · rw [run_measure words m hmeasure]
      exact .error (hrefuses e (congrArg Prod.fst hmeasure))
    · rw [run_measure words m hmeasure]
      exact .ok (some bits)

end Machine
end Ketscript
