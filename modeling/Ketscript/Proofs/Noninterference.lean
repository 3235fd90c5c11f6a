import Ketscript.Proofs.Atomicity
import Mathlib.Data.List.Forall2

/-! Random words. Only a measurement looks at one, and it goes into the outcome and nowhere else. So the same calls
    lead through the same machines whatever the random words are, and are answered alike up to the bits of
    outcomes: an outcome comes from the ket of its register and from one word, whose place in the stream is the
    number of measurements before it. What fails has no part in this, so that calls that fail can be inserted
    into a run, or left out of it, and all else stays as it is. -/

namespace Ketscript

/-- The call gives the instruction, as a line or as it is. -/
def Call.Gives (c : Call) (i : Instruction) : Prop :=
  match c with
  | .execute line => Instruction.ofLine? line = .ok i
  | .run j => j = i
  | .script _ => False

/-- What a call gives back: the answer to a line or an instruction, or the outcomes of a script and its error. -/
inductive Response where
  | answer (a : Machine.Answer)
  | script (outcomes : List Bits) (failure : Option ScriptError)

/-- The same but for the bits of outcomes. -/
inductive Response.Alike : Response → Response → Prop
  | error (e : InstructionError) : Alike (.answer (.error e)) (.answer (.error e))
  | nothing : Alike (.answer (.ok none)) (.answer (.ok none))
  | outcome (bits bits' : Bits) : Alike (.answer (.ok (some bits))) (.answer (.ok (some bits')))
  | script {outcomes outcomes' : List Bits} (h : outcomes.length = outcomes'.length)
      (failure : Option ScriptError) : Alike (.script outcomes failure) (.script outcomes' failure)

theorem Response.Alike.answer_refl (a : Machine.Answer) : Alike (.answer a) (.answer a) := by
  rcases a with e | _ | bits
  · exact .error e
  · exact .nothing
  · exact .outcome bits bits

namespace Machine
variable {K R : Type}

/-- A call in a run, what it gave back, and the machine after it. -/
structure Event (K : Type) where
  call : Call
  response : Response
  machine : Machine K

/-- The call was answered with an error. -/
def Event.Failed (event : Event K) : Prop := ∃ e, event.response = .answer (.error e)

/-- The same call, with the same machine after it, was answered alike. -/
structure Event.Alike (event event' : Event K) : Prop where
  call : event.call = event'.call
  response : event.response.Alike event'.response
  machine : event.machine = event'.machine

/-- The second list is the first with elements inserted that have a property. -/
inductive Inserted {α : Type} (p : α → Prop) : List α → List α → Prop
  | nil : Inserted p [] []
  | keep {a : α} {as bs : List α} (tail : Inserted p as bs) : Inserted p (a :: as) (a :: bs)
  | insert {b : α} {as bs : List α} (head : p b) (tail : Inserted p as bs) : Inserted p as (b :: bs)

variable [RealScalar R] [Amplitude K R] [Add K] [Mul K] [Zero K] [One K] [BEq K]

/-- What a call gives back. -/
def response (words : Nat → UInt64) (m : Machine K) : Call → Response
  | .execute line => .answer (m.execute words line).1
  | .run instruction => .answer (m.run words instruction).1
  | .script text => .script (m.runScript words text).outcomes (m.runScript words text).failure

/-- The events of calls, one after the other. -/
def trace (words : Nat → UInt64) : Machine K → List Call → List (Event K)
  | _, [] => []
  | m, c :: cs => ⟨c, m.response words c, m.call words c⟩ :: trace words (m.call words c) cs

variable {m : Machine K} {words : Nat → UInt64}

/-! ### Two streams of random words -/

/-- An instruction is answered alike whatever the random words are, and the machine after it is the same. -/
theorem run_alike (words words' : Nat → UInt64) (m : Machine K) (i : Instruction) :
    Response.Alike (.answer (m.run words i).1) (.answer (m.run words' i).1) ∧
      (m.run words i).2 = (m.run words' i).2 := by
  cases i with
  | prepare | select | concat | tensor | inverse | apply => exact ⟨.answer_refl _, rfl⟩
  | measure register =>
    rcases m.store.measure_cases register with ⟨e, he⟩ | ⟨v, -, hv⟩
    · rw [run_measure words m (he words _), run_measure words' m (he words' _)]
      exact ⟨.error e, rfl⟩
    · rw [run_measure words m (hv words _), run_measure words' m (hv words' _)]
      exact ⟨.outcome _ _, rfl⟩

theorem execute_alike (words words' : Nat → UInt64) (m : Machine K) (line : String) :
    Response.Alike (.answer (m.execute words line).1) (.answer (m.execute words' line).1) ∧
      (m.execute words line).2 = (m.execute words' line).2 := by
  cases hline : Instruction.ofLine? line with
  | error cause =>
    rw [execute_of_syntaxError words m hline, execute_of_syntaxError words' m hline]
    exact ⟨.error _, rfl⟩
  | ok i =>
    rw [execute_of_ofLine? words m hline, execute_of_ofLine? words' m hline]
    exact run_alike words words' m i

theorem runLines_alike (words words' : Nat → UInt64) (lines : List String) (number : Nat) (m : Machine K) :
    (runLines words number lines m).outcomes.length = (runLines words' number lines m).outcomes.length ∧
      (runLines words number lines m).failure = (runLines words' number lines m).failure ∧
        (runLines words number lines m).machine = (runLines words' number lines m).machine := by
  induction lines generalizing number m with
  | nil => exact ⟨rfl, rfl, rfl⟩
  | cons line rest ih =>
    simp only [runLines]
    split
    · exact ih (number + 1) m
    · obtain ⟨halike, hmachine⟩ := execute_alike words words' m (Text.trim line)
      rcases hline : m.execute words (Text.trim line) with ⟨a, m₁⟩
      rcases hline' : m.execute words' (Text.trim line) with ⟨a', m₁'⟩
      rw [hline, hline'] at halike hmachine
      cases hmachine
      cases halike with
      | error e => exact ⟨rfl, rfl, rfl⟩
      | nothing => exact ih (number + 1) m₁
      | outcome bits bits' =>
        obtain ⟨hlength, hfailure, hmachine⟩ := ih (number + 1) m₁
        exact ⟨congrArg (· + 1) hlength, hfailure, hmachine⟩

theorem call_alike (words words' : Nat → UInt64) (m : Machine K) (c : Call) :
    (m.response words c).Alike (m.response words' c) ∧ m.call words c = m.call words' c := by
  cases c with
  | execute line => exact execute_alike words words' m line
  | run instruction => exact run_alike words words' m instruction
  | script text =>
    obtain ⟨hlength, hfailure, hmachine⟩ := runLines_alike words words' (Text.lines text) 1 m
    refine ⟨?_, hmachine⟩
    simp only [response, runScript, hfailure]
    exact .script hlength _

theorem trace_alike (words words' : Nat → UInt64) (cs : List Call) (m : Machine K) :
    List.Forall₂ Event.Alike (m.trace words cs) (m.trace words' cs) := by
  induction cs generalizing m with
  | nil => exact .nil
  | cons c cs ih =>
    obtain ⟨hresponse, hmachine⟩ := call_alike words words' m c
    refine .cons ⟨rfl, hresponse, hmachine⟩ ?_
    rw [hmachine]
    exact ih (m.call words' c)

/-! ### Outcomes -/

/-- An outcome is that of a measurement, and comes from the ket of its register and the next random word. -/
theorem outcome_of_run {i : Instruction} {bits : Bits} (h : (m.run words i).1 = .ok (some bits)) :
    ∃ register v, i = .measure register ∧ m.store.registers.find? register = some v ∧
      bits = Ket.outcomeAt v (Ket.unitPoint (words m.drawn)) := by
  rcases hrun : m.run words i with ⟨a, m'⟩
  rw [hrun] at h
  cases h
  cases step_of_run hrun with
  | measure hregister hnorm => exact ⟨_, _, rfl, hregister, rfl⟩

theorem outcome_of_response {c : Call} {bits : Bits} (h : m.response words c = .answer (.ok (some bits))) :
    ∃ register v, c.Gives (.measure register) ∧ m.store.registers.find? register = some v ∧
      bits = Ket.outcomeAt v (Ket.unitPoint (words m.drawn)) := by
  cases c with
  | execute line =>
    simp only [response, Response.answer.injEq] at h
    cases hline : Instruction.ofLine? line with
    | error cause => simp [execute_of_syntaxError words m hline] at h
    | ok i =>
      rw [execute_of_ofLine? words m hline] at h
      obtain ⟨register, v, rfl, hv⟩ := outcome_of_run h
      exact ⟨register, v, hline, hv⟩
  | run i =>
    obtain ⟨register, v, rfl, hv⟩ := outcome_of_run (Response.answer.inj h)
    exact ⟨register, v, rfl, hv⟩
  | script text => cases h

/-! ### Insertions -/

theorem call_of_failed {c : Call} {e : InstructionError} (h : m.response words c = .answer (.error e)) :
    m.call words c = m := by
  cases c with
  | execute line =>
    rcases performedLine?_cases words m line with ⟨-, e', he⟩ | ⟨-, a, m', -, hok, -⟩
    · exact congrArg Prod.snd he
    · simp [response, hok] at h
  | run i =>
    rcases run_cases words m i with ⟨e', he⟩ | ⟨a, m', hok⟩
    · exact congrArg Prod.snd he
    · simp [response, hok] at h
  | script text => cases h

/-- The events of a run without some of those that failed are the events of their calls, and lead to the same
    machine. -/
theorem trace_of_inserted {events : List (Event K)} {cs : List Call}
    (h : Inserted Event.Failed events (m.trace words cs)) :
    m.trace words (events.map Event.call) = events ∧
      m.calls words (events.map Event.call) = m.calls words cs := by
  induction cs generalizing m events with
  | nil =>
    cases h
    exact ⟨rfl, rfl⟩
  | cons c cs ih =>
    cases h with
    | keep tail =>
      obtain ⟨htrace, hcalls⟩ := ih tail
      exact ⟨congrArg (_ :: ·) htrace, hcalls⟩
    | insert head tail =>
      -- The machine after the call is the one before it, so the events that follow start from there.
      obtain ⟨e, he⟩ := head
      have hcall : m.call words c = m := call_of_failed he
      rw [hcall] at tail
      obtain ⟨htrace, hcalls⟩ := ih tail
      refine ⟨htrace, hcalls.trans ?_⟩
      rw [calls, calls, List.foldl_cons, hcall]

/-- Runs of the same calls over any two streams of random words go through the same machines and are answered
    alike. An outcome is that of a measurement, and comes from the ket of the register and from the word whose
    place is the number of measurements that have succeeded. Calls that fail can be inserted anywhere in a run:
    all other events, and the machine at the end, are those of the run without them. -/
theorem noninterference (words words' : Nat → UInt64) (cs : List Call) :
    let m : Machine K := fresh.calls words cs
    List.Forall₂ Event.Alike ((fresh : Machine K).trace words cs) ((fresh : Machine K).trace words' cs) ∧
      (∀ c bits, m.response words c = .answer (.ok (some bits)) →
        ∃ register v, c.Gives (.measure register) ∧ m.store.registers.find? register = some v ∧
          bits = Ket.outcomeAt v (Ket.unitPoint
            (words (((fresh : Machine K).history words cs).countP Instruction.isMeasure)))) ∧
      ∀ events, Inserted Event.Failed events ((fresh : Machine K).trace words cs) →
        (fresh : Machine K).trace words (events.map Event.call) = events ∧
          fresh.calls words (events.map Event.call) = m := by
  intro m
  refine ⟨trace_alike words words' cs fresh, fun c bits h => ?_, fun events h => trace_of_inserted h⟩
  have hdrawn : m.drawn = ((fresh : Machine K).history words cs).countP Instruction.isMeasure :=
    (drawn_calls words fresh cs).trans (Nat.zero_add _)
  rw [← hdrawn]
  exact outcome_of_response h

theorem noninterference_failed_apply :
    let words : Nat → UInt64 := fun _ => 0
    let cs : List Call := [.execute "INITIALIZE Q 1 [1]", .execute "APPLY U Q"]
    let m : Machine FloatComplex := fresh.calls words cs
    let events := ((fresh : Machine FloatComplex).trace words cs).take 1
    (m.response words (.run (.measure "Q")) = .answer (.ok (some [true])) ∧
        ∃ register v, Call.Gives (.run (.measure "Q")) (.measure register) ∧
          m.store.registers.find? register = some v ∧ [true] = Ket.outcomeAt v (Ket.unitPoint (words 0))) ∧
      Inserted Event.Failed events ((fresh : Machine FloatComplex).trace words cs) ∧
        (fresh : Machine FloatComplex).trace words (events.map Event.call) = events ∧
          fresh.calls words (events.map Event.call) = m := by
  intro words cs m events
  have hregister : m.store.registers.find? "Q" = some (Ket.basis 2 1) := by rfl
  have hnorm : (0 : Float) < Ket.normSq (Ket.basis 2 1 : Ket FloatComplex) := by decide +kernel
  have hbits : Ket.outcomeAt (Ket.basis 2 1 : Ket FloatComplex) (Ket.unitPoint 0) = [true] := by decide +kernel
  have hmeasure : (m.store.measure words "Q").on m.drawn = (.ok [true], m.drawn + 1) :=
    Store.measure_eq_ok.mpr ⟨_, hregister, hnorm, hbits.symm, rfl⟩
  have hresponse : m.response words (.run (.measure "Q")) = .answer (.ok (some [true])) := by
    rw [response, run_measure words m hmeasure]
    rfl
  have hinserted : Inserted Event.Failed events ((fresh : Machine FloatComplex).trace words cs) :=
    .keep (.insert ⟨.noGate "U", rfl⟩ .nil)
  obtain ⟨-, houtcome, hinsert⟩ := noninterference (K := FloatComplex) words words cs
  exact ⟨⟨hresponse, houtcome _ _ hresponse⟩, hinserted, hinsert events hinserted⟩

end Machine
end Ketscript
