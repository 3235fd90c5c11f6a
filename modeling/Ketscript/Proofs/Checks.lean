import Ketscript.Machine.Operation

/-! Sequences of checks. A computation that can fail succeeds exactly if each of its parts does. An operation does so
    too, each part going on from the state that the one before it left. -/

namespace Ketscript
variable {ε α β : Type} {b : β}

theorem bind_eq_ok {x : Except ε α} {f : α → Except ε β} :
    x >>= f = .ok b ↔ ∃ a, x = .ok a ∧ f a = .ok b := by
  cases x with
  | error e => simp [bind, Except.bind]
  | ok a => simp [bind, Except.bind]

theorem check_bind_eq_ok {x : Except ε Unit} {f : Unit → Except ε β} :
    x >>= f = .ok b ↔ x = .ok () ∧ f () = .ok b := by
  rw [bind_eq_ok]
  exact ⟨fun ⟨_, hx, hf⟩ => ⟨hx, hf⟩, fun ⟨hx, hf⟩ => ⟨(), hx, hf⟩⟩

theorem pure_eq_ok {a : β} : (pure a : Except ε β) = .ok b ↔ b = a := by simp [pure, Except.pure, eq_comm]

theorem mapError_eq_ok {ε' : Type} {f : ε → ε'} {x : Except ε α} {a : α} : x.mapError f = .ok a ↔ x = .ok a := by
  cases x with
  | error e => exact iff_of_false nofun nofun
  | ok b =>
    constructor
    · rintro ⟨⟩
      rfl
    · rintro ⟨⟩
      rfl

theorem throw_if_eq_ok {p : Prop} [Decidable p] {e : ε} {f : Unit → Except ε β} :
    (if p then throw e >>= f else f ()) = .ok b ↔ ¬p ∧ f () = .ok b := by
  by_cases h : p
  · simp [h, bind, Except.bind, throw, throwThe, MonadExceptOf.throw]
  · simp [h]

theorem ite_eq_ok {p : Prop} [Decidable p] {a : β} {e : ε} :
    (if p then .ok a else .error e : Except ε β) = .ok b ↔ p ∧ b = a := by
  by_cases h : p
  · simp [h, eq_comm]
  · simp [h]

/-! ### Operations -/

namespace Operation
variable {S T α β : Type} {x : Operation S α} {f : α → Operation S β} {s t : S} {b : β} {e : InstructionError}

theorem on_lift_bind (y : Except InstructionError α) (f : α → Operation S β) (s : S) :
    ((liftM y : Operation S α) >>= f).on s = match y with
      | .ok a => (f a).on s
      | .error e => (.error e, s) := by
  rw [on_bind, on_lift]
  cases y <;> rfl

theorem on_failIf_bind (p : Prop) [Decidable p] (e : InstructionError) (f : Unit → Operation S β) (s : S) :
    (failIf p e >>= f).on s = if p then (.error e, s) else (f ()).on s := by
  rw [on_bind, failIf]
  by_cases hp : p
  · simp [hp]
  · simp [hp]

theorem on_lift_bind_eq_ok {y : Except InstructionError α} :
    ((liftM y : Operation S α) >>= f).on s = (.ok b, t) ↔ ∃ a, y = .ok a ∧ (f a).on s = (.ok b, t) := by
  rw [on_lift_bind]
  cases y <;> simp

theorem on_check_bind_eq_ok {y : Except InstructionError Unit} {f : Unit → Operation S β} :
    ((liftM y : Operation S Unit) >>= f).on s = (.ok b, t) ↔ y = .ok () ∧ (f ()).on s = (.ok b, t) := by
  rw [on_lift_bind]
  cases y <;> simp

theorem on_failIf_bind_eq_ok {p : Prop} [Decidable p] {f : Unit → Operation S β} :
    (failIf p e >>= f).on s = (.ok b, t) ↔ ¬p ∧ (f ()).on s = (.ok b, t) := by
  rw [on_failIf_bind]
  split <;> simp_all

/-- An operation after which a value is given. -/
theorem on_bind_pure (x : Operation S α) (b : β) (s : S) :
    (x >>= fun _ => pure b).on s = ((x.on s).1.map fun _ => b, (x.on s).2) := by
  rw [on_bind]
  rcases x.on s with ⟨e | a, u⟩ <;> rfl

theorem on_bind_pure_of_on {result : Except InstructionError α} (h : x.on s = (result, t)) (b : β) :
    (x >>= fun _ => pure b).on s = (result.map fun _ => b, t) := by
  rw [on_bind_pure, h]

theorem on_bind_pure_eq_ok {x : Operation S Unit} {c : β} :
    (x >>= fun _ => pure c).on s = (.ok b, t) ↔ x.on s = (.ok (), t) ∧ b = c := by
  rw [on_bind_pure]
  rcases x.on s with ⟨e | a, u⟩ <;> simp [Except.map, and_comm, eq_comm]

theorem on_onPart_eq_ok {read : T → S} {write : T → S → T} {u u' : T} {a : α} :
    (x.onPart read write).on u = (.ok a, u') ↔ ∃ s, x.on (read u) = (.ok a, s) ∧ u' = write u s := by
  rw [on_onPart]
  constructor
  · intro h
    obtain ⟨ha, rfl⟩ := Prod.mk.inj h
    exact ⟨_, Prod.ext ha rfl, rfl⟩
  · rintro ⟨s, hs, rfl⟩
    rw [hs]

end Operation
end Ketscript
