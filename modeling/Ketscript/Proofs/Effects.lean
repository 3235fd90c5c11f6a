import Ketscript.Machine.Step
import Ketscript.Proofs.Checks

/-! Operations that fail. A failure takes nothing back, so an operation that fails leaves the state as it was only if
    whatever can fail comes before the first change. The operations on the store and on the stream of random words are
    in this order: each reads and checks, and then makes one change that cannot fail. So are the instructions that are
    made of them. -/

namespace Ketscript

namespace Operation
variable {S T α β : Type} {x : Operation S α} {f : α → Operation S β}

/-- The operation changes nothing. -/
def ReadOnly (x : Operation S α) : Prop := ∀ s, (x.on s).2 = s

/-- The operation cannot fail. -/
def Total (x : Operation S α) : Prop := ∀ s e, (x.on s).1 ≠ .error e

/-- The operation changes nothing if it fails. -/
def Atomic (x : Operation S α) : Prop := ∀ s e, (x.on s).1 = .error e → (x.on s).2 = s

/-! ### Operations of one step -/

theorem readOnly_pure (a : α) : ReadOnly (pure a : Operation S α) := fun _ => rfl

theorem readOnly_throw (e : InstructionError) : ReadOnly (throw e : Operation S α) := fun _ => rfl

theorem readOnly_get : ReadOnly (get : Operation S S) := fun _ => rfl

theorem readOnly_lift (y : Except InstructionError α) : ReadOnly (liftM y : Operation S α) := fun _ => rfl

theorem readOnly_failIf (p : Prop) [Decidable p] (e : InstructionError) : ReadOnly (failIf p e : Operation S Unit) := by
  unfold failIf
  split
  · exact readOnly_throw e
  · exact readOnly_pure ()

theorem total_pure (a : α) : Total (pure a : Operation S α) := by
  intro s e h
  cases h

theorem total_modify (f : S → S) : Total (modify f : Operation S Unit) := by
  intro s e h
  cases h

theorem total_nextWord (words : Nat → UInt64) : Total (nextWord words) := by
  intro drawn e h
  cases h

/-! ### Sequences -/

theorem ReadOnly.atomic (h : ReadOnly x) : Atomic x := fun s _ _ => h s

theorem Total.atomic (h : Total x) : Atomic x := fun s e he => absurd he (h s e)

/-- What is read and checked first may fail as well. -/
theorem ReadOnly.bind_atomic (hx : ReadOnly x) (hf : ∀ a, Atomic (f a)) : Atomic (x >>= f) := by
  intro s e h
  rw [on_bind] at h ⊢
  rcases hs : x.on s with ⟨e' | a, t⟩
  · exact (congrArg Prod.snd hs).symm.trans (hx s)
  · obtain rfl : t = s := (congrArg Prod.snd hs).symm.trans (hx s)
    rw [hs] at h
    exact hf a t e h

/-- What follows a change must not fail. -/
theorem Atomic.bind_total (hx : Atomic x) (hf : ∀ a, Total (f a)) : Atomic (x >>= f) := by
  intro s e h
  rw [on_bind] at h ⊢
  rcases hs : x.on s with ⟨e' | a, t⟩
  · exact (congrArg Prod.snd hs).symm.trans (hx s e' (congrArg Prod.fst hs))
  · rw [hs] at h
    exact absurd h (hf a t e)

/-- An operation that leaves a part as it was leaves the whole as it was. -/
theorem Atomic.onPart (hx : Atomic x) {read : T → S} {write : T → S → T} (hwrite : ∀ t, write t (read t) = t) :
    Atomic (x.onPart read write) := by
  intro t e h
  rw [on_onPart] at h ⊢
  rw [hx (read t) e h]
  exact hwrite t

end Operation

open Operation

/-! ### The store and the stream of random words -/

namespace Store
variable {K R : Type}

theorem atomic_define (name : String) (u : Matrix K) : Atomic (define name u) :=
  readOnly_get.bind_atomic fun s =>
    (readOnly_lift (s.checkDefinable name)).bind_atomic fun _ => (total_modify _).atomic

theorem atomic_create [Zero K] [One K] (name : String) (qubits : Nat) (bits : Option String) :
    Atomic (create name qubits bits : Operation (Store K) Unit) := by
  refine readOnly_get.bind_atomic fun s => ?_
  refine (readOnly_failIf _ _).bind_atomic fun _ => ?_
  refine (readOnly_failIf _ _).bind_atomic fun _ => ?_
  refine (readOnly_failIf _ _).bind_atomic fun _ => ?_
  exact (readOnly_lift (basisIndex? qubits bits)).bind_atomic fun _ => (total_modify _).atomic

variable [RealScalar R] [Amplitude K R] [Zero K] [One K]

/-- The product with the ket is computed, which may fail, before the register is written. -/
theorem atomic_apply [Add K] [Mul K] (gate register : String) :
    Atomic (apply gate register : Operation (Store K) Unit) := by
  refine readOnly_get.bind_atomic fun s => ?_
  refine (readOnly_lift (s.register? register)).bind_atomic fun v => ?_
  refine (readOnly_lift (s.resolve gate)).bind_atomic fun u => ?_
  refine (readOnly_failIf _ _).bind_atomic fun _ => ?_
  exact (readOnly_lift ((u.act? v).mapError .linear)).bind_atomic fun _ => (total_modify _).atomic

/-- A word is drawn after all checks, and an outcome can be drawn at every word. -/
theorem atomic_measure (s : Store K) (words : Nat → UInt64) (register : String) :
    Atomic (s.measure words register) := by
  refine (readOnly_lift (s.register? register)).bind_atomic fun v => ?_
  refine (readOnly_failIf _ _).bind_atomic fun _ => ?_
  exact (total_nextWord words).atomic.bind_total fun _ => total_pure _

end Store

/-! ### Instructions and lines -/

namespace Machine
variable {K R : Type}

theorem atomic_onStore {α : Type} {x : Operation (Store K) α} (hx : Atomic x) : Atomic (onStore x) :=
  hx.onPart fun _ => rfl

theorem atomic_onStream {α : Type} {x : Operation Nat α} (hx : Atomic x) :
    Atomic (onStream x : Operation (Machine K) α) :=
  hx.onPart fun _ => rfl

theorem atomic_defineGate (name : String) (operands : List String)
    (matrix? : Store K → Except InstructionError (Matrix K)) : Atomic (defineGate name operands matrix?) := by
  refine readOnly_get.bind_atomic fun m => ?_
  refine (readOnly_lift (m.store.checkDefinition name operands)).bind_atomic fun _ => ?_
  exact (readOnly_lift (matrix? m.store)).bind_atomic fun u => atomic_onStore (Store.atomic_define name u)

variable [RealScalar R] [Amplitude K R] [Add K] [Mul K] [Zero K] [One K] [BEq K]

theorem atomic_perform (words : Nat → UInt64) (i : Instruction) :
    Atomic (perform words i : Operation (Machine K) (Option Bits)) := by
  cases i with
  | prepare register qubits state =>
    refine (readOnly_lift (qubitCount qubits)).bind_atomic fun count => ?_
    exact (atomic_onStore (Store.atomic_create register count state)).bind_total fun _ => total_pure none
  | select => exact (readOnly_throw _).atomic
  | concat | tensor | inverse => exact (atomic_defineGate _ _ _).bind_total fun _ => total_pure none
  | apply gate register =>
    exact (atomic_onStore (Store.atomic_apply gate register)).bind_total fun _ => total_pure none
  | measure register =>
    refine readOnly_get.bind_atomic fun m => ?_
    exact (atomic_onStream (m.store.atomic_measure words register)).bind_total fun bits => total_pure (some bits)

theorem atomic_performLine (words : Nat → UInt64) (line : String) :
    Atomic (performLine words line : Operation (Machine K) (Option Bits)) :=
  (readOnly_lift _).bind_atomic (atomic_perform words)

end Machine
end Ketscript
