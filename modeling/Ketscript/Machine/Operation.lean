import Ketscript.Language.Error

/-! Operations on a state. An operation ends with a value or with an error, and in both cases leaves a state. An
    error undoes nothing: what an operation had changed before it failed stays changed. -/

namespace Ketscript

/-- A computation on states of type `S` that gives a value of type `α` or an error. -/
abbrev Operation (S α : Type) := ExceptT InstructionError (StateM S) α

namespace Operation
variable {S T α β : Type}

/-- What an operation gives at a state, and the state that it leaves. -/
@[inline] def on (x : Operation S α) (s : S) : Except InstructionError α × S := x.run.run s

/-- Fails under a condition. -/
@[inline] def failIf (p : Prop) [Decidable p] (e : InstructionError) : Operation S Unit :=
  if p then throw e else pure ()

/-- The operation on a part of a larger state. The part that it leaves is put back, also if it fails. -/
@[inline] def onPart (read : T → S) (write : T → S → T) (x : Operation S α) : Operation T α := ExceptT.mk fun t =>
  let (result, s) := x.on (read t)
  (result, write t s)

/-! ### What operations give and leave -/

variable {s : S} {e : InstructionError}

@[simp] theorem on_pure (a : α) (s : S) : (pure a : Operation S α).on s = (.ok a, s) := rfl

@[simp] theorem on_throw (e : InstructionError) (s : S) : (throw e : Operation S α).on s = (.error e, s) := rfl

@[simp] theorem on_lift (x : Except InstructionError α) (s : S) : (liftM x : Operation S α).on s = (x, s) := rfl

@[simp] theorem on_modify (f : S → S) (s : S) : (modify f : Operation S Unit).on s = (.ok (), f s) := rfl

@[simp] theorem on_onPart (read : T → S) (write : T → S → T) (x : Operation S α) (t : T) :
    (x.onPart read write).on t = ((x.on (read t)).1, write t (x.on (read t)).2) := rfl

/-- After a value the next operation goes on from the state that was left; after an error nothing follows. -/
theorem on_bind (x : Operation S α) (f : α → Operation S β) (s : S) :
    (x >>= f).on s = match x.on s with
      | (.ok a, t) => (f a).on t
      | (.error e, t) => (.error e, t) := by
  unfold on
  simp only [bind, ExceptT.bind, ExceptT.mk, StateT.bind, ExceptT.bindCont, ExceptT.run, StateT.run]
  rcases x s with ⟨e | a, t⟩ <;> rfl

@[simp] theorem on_get_bind (f : S → Operation S α) (s : S) : (get >>= f).on s = (f s).on s := on_bind get f s

end Operation
end Ketscript
