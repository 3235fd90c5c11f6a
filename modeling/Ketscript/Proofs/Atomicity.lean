import Ketscript.Binary64.Scalar
import Ketscript.Proofs.BuiltinGates
import Ketscript.Proofs.Runs

/-! Failures change nothing. An instruction or a line that fails leaves registers, gates and the position in
    the stream of random words as they were. So the calls of a run come to the same as the instructions that
    succeeded in it, and only the measurements among these have drawn a word. -/

namespace Ketscript

def Instruction.isMeasure : Instruction → Bool
  | measure _ => true
  | _ => false

namespace Machine
variable {K R : Type} [RealScalar R] [Amplitude K R] [Add K] [Mul K] [Zero K] [One K] [BEq K]
variable {words : Nat → UInt64} {m m' : Machine K} {is : List Instruction}

/-- A failure leaves the machine as it is. -/
theorem unchanged_of_error (words : Nat → UInt64) (m : Machine K) (e : InstructionError) :
    (∀ i, (m.run words i).1 = .error e → (m.run words i).2 = m) ∧
      ∀ line, (m.execute words line).1 = .error e → (m.execute words line).2 = m :=
  ⟨fun i => atomic_perform words i m e, fun line => atomic_performLine words line m e⟩

theorem unchanged_of_error_measure :
    let m : Machine FloatComplex := fresh.calls (fun _ => 0) [.execute "INITIALIZE Q 2"]
    ((m.run (fun _ => 0) (.measure "P")).1 = .error (.noRegister "P") ∧
        (m.run (fun _ => 0) (.measure "P")).2 = m) ∧
      (m.execute (fun _ => 0) "APPLY H Q").1 = .error (.gateSize 2 4) ∧
        (m.execute (fun _ => 0) "APPLY H Q").2 = m := by
  intro m
  have hrun : (m.run (fun _ => 0) (.measure "P")).1 = .error (.noRegister "P") := by rfl
  have hline : (m.execute (fun _ => 0) "APPLY H Q").1 = .error (.gateSize 2 4) := by
    have hregister : m.store.registers.find? "Q" = some (Ket.basis 4 0) := by rfl
    have happly := Store.apply_of_size hregister m.store.resolve_hadamard (.inr (by decide))
    rw [execute_of_ofLine? _ m (by decide : Instruction.ofLine? "APPLY H Q" = .ok (.apply "H" "Q"))]
    exact congrArg Prod.fst (onStore_bind_pure happly)
  exact ⟨⟨hrun, (unchanged_of_error _ _ _).1 _ hrun⟩, hline, (unchanged_of_error _ _ _).2 _ hline⟩

/-! ### Runs -/

theorem Steps.calls_run (h : m.Steps words is m') : m.calls words (is.map .run) = m' := by
  induction h with
  | nil => rfl
  | cons head _ ih =>
    rw [← ih]
    simp [calls, call, head]

/-- Calls lead where the instructions lead that succeed in them. -/
theorem calls_history (words : Nat → UInt64) (m : Machine K) (cs : List Call) :
    m.calls words ((m.history words cs).map .run) = m.calls words cs :=
  (calls_steps words cs m).calls_run

theorem Step.drawn {i : Instruction} {a : Option Bits} (h : m.Step words i a m') :
    m'.drawn = m.drawn + [i].countP Instruction.isMeasure := by
  cases h with
  | prepare | apply | measure => rfl
  | define hdefines _ => cases hdefines <;> rfl

/-- A word is drawn for every measurement that succeeds, and for nothing else. -/
theorem drawn_calls (words : Nat → UInt64) (m : Machine K) (cs : List Call) :
    (m.calls words cs).drawn = m.drawn + (m.history words cs).countP Instruction.isMeasure := by
  refine (calls_steps words cs m).invariant
    (P := fun past m' => m'.drawn = m.drawn + past.countP Instruction.isMeasure)
    (fun past m₁ i a m₂ hm₁ hstep => ?_) [] rfl
  rw [hstep.drawn, hm₁, List.countP_append, Nat.add_assoc]

end Machine
end Ketscript
