import Ketscript.Console.Repl
import Ketscript.Proofs.Scripts

/-! The dialogue and scripts. Over lines without commands the dialogue does what a script of the same lines does,
    up to the first line that fails: the script ends there, and the dialogue goes on with the machine as it was.
    So the dialogue writes what the script without the failing lines prints, and leaves the same machine. -/

namespace Ketscript

/-- The lines that ask the dialogue for something else than an instruction. -/
def Request.commands : List String := [":quit", ":registers", ":gates"]

theorem Request.ofLine_of_not_command {line : String} (h : Text.trim line ∉ commands) :
    ofLine line = if isRemark (Text.trim line) then nothing else instruct (Text.trim line) := by
  simp only [commands, List.mem_cons, List.not_mem_nil, or_false, not_or] at h
  simp [ofLine, h]

theorem Request.ofLine_congr {line line' : String} (h : Text.trim line = Text.trim line') :
    ofLine line = ofLine line' := by
  unfold ofLine
  rw [h]

namespace Machine
variable {words : Nat → UInt64} {m m' : Machine FloatComplex} {line : String} {lines lines' : List String}

/-- The lines that the dialogue answers without an error. -/
def answered (words : Nat → UInt64) : Machine FloatComplex → List String → List String
  | _, [] => []
  | m, line :: rest =>
    let (reply, m) := m.reply words (Request.ofLine line)
    match reply.error with
    | none => line :: answered words m rest
    | some _ => answered words m rest

/-- The text without the lines that the dialogue answers with an error. -/
def withoutFailures (words : Nat → UInt64) (m : Machine FloatComplex) (text : String) : String :=
  String.join (m.answered words (Text.wholeLines text))

/-! ### One line -/

/-- A line without a command is answered with an error, and a script that comes to it ends with this error; or it
    is answered with some output, and a script prints this and goes on with the same machine as the dialogue. -/
theorem line_cases (words : Nat → UInt64) (m : Machine FloatComplex) (h : Text.trim line ∉ Request.commands) :
    (∃ e, m.reply words (Request.ofLine line) = (⟨"", some e⟩, m) ∧
        ∀ number rest, runLines words number (line :: rest) m = ⟨[], some ⟨number, e⟩, m⟩) ∨
      ∃ output m', m.reply words (Request.ofLine line) = (⟨output, none⟩, m') ∧ ∀ number rest,
        let run := runLines words number (line :: rest) m
        let tail := runLines words (number + 1) rest m'
        run.output = output ++ tail.output ∧ run.failure = tail.failure ∧ run.machine = tail.machine := by
  rw [Request.ofLine_of_not_command h]
  by_cases hremark : isRemark (Text.trim line) = true
  · refine .inr ⟨"", m, by simp [hremark, reply], fun number rest => ?_⟩
    simp [runLines, hremark]
  · simp only [hremark, Bool.false_eq_true, if_false, reply, runLines]
    rcases performedLine?_cases words m (Text.trim line) with ⟨-, e, he⟩ | ⟨-, a, m', -, hok, -⟩
    · rw [he]
      exact .inl ⟨e, rfl, fun number rest => rfl⟩
    · rw [hok]
      cases a with
      | none => exact .inr ⟨"", m', rfl, fun number rest => ⟨String.empty_append.symm, rfl, rfl⟩⟩
      | some bits => exact .inr ⟨_, m', rfl, fun number rest => ⟨String.join_cons, rfl, rfl⟩⟩

/-- The dialogue on a line that does not ask it to quit writes its reply, after a prompt if it is interactive, and
    goes on. -/
theorem converse_next (words : Nat → UInt64) (interactive : Bool) (m : Machine FloatComplex)
    (h : Request.ofLine line ≠ .quit) (rest : List (Except InputError String)) :
    let answer := m.reply words (Request.ofLine line)
    let tail := converse words interactive rest answer.2
    converse words interactive (.ok line :: rest) m =
      { tail with
        written := promptFor interactive ++ answer.1.output :: tail.written
        errors := answer.1.error.toList ++ tail.errors } := by
  intro answer tail
  rw [converse]
  cases hrequest : Request.ofLine line with
  | quit => exact absurd hrequest h
  | nothing | listRegisters | listGates | instruct => simp [answer, tail, hrequest]

theorem converse_cons (words : Nat → UInt64) (m : Machine FloatComplex) (h : Text.trim line ∉ Request.commands)
    (rest : List (Except InputError String)) :
    let answer := m.reply words (Request.ofLine line)
    let tail := converse words false rest answer.2
    converse words false (.ok line :: rest) m =
      { tail with written := answer.1.output :: tail.written, errors := answer.1.error.toList ++ tail.errors } := by
  have hquit : Request.ofLine line ≠ .quit := by
    rw [Request.ofLine_of_not_command h]
    split <;> simp
  exact converse_next words false m hquit rest

/-! ### All lines -/

/-- The dialogue writes what the lines print as a script that it answers without an error, and leaves the same
    machine. -/
theorem converse_eq_runLines (words : Nat → UInt64) (number : Nat) (m : Machine FloatComplex)
    (h : ∀ line ∈ lines, Text.trim line ∉ Request.commands) :
    let dialogue := converse words false (lines.map .ok) m
    let run := runLines words number (m.answered words lines) m
    dialogue.ending = .endOfInput ∧ dialogue.output = run.output ∧ run.failure = none ∧
      dialogue.machine = run.machine := by
  induction lines generalizing number m with
  | nil => exact ⟨rfl, rfl, rfl, rfl⟩
  | cons line rest ih =>
    obtain ⟨hline, hrest⟩ := List.forall_mem_cons.mp h
    simp only [List.map_cons, converse_cons words m hline, answered]
    rcases line_cases words m hline with ⟨e, hreply, -⟩ | ⟨output, m', hreply, hrun⟩
    · rw [hreply]
      simpa [Dialogue.output] using ih number m hrest
    · obtain ⟨hending, houtput, hfailure, hmachine⟩ := ih (number + 1) m' hrest
      obtain ⟨hrunOutput, hrunFailure, hrunMachine⟩ := hrun number (m'.answered words rest)
      rw [hreply]
      refine ⟨hending, ?_, hrunFailure.trans hfailure, hmachine.trans hrunMachine.symm⟩
      rw [hrunOutput, ← houtput]
      exact String.join_cons

/-- A script ends at the first line that the dialogue answers with an error. It has then printed what the dialogue
    has written, and leaves the machine that the dialogue has come to. -/
theorem runLines_of_error {n : Nat} {e : InstructionError} (number : Nat)
    (h : ∀ line ∈ lines, Text.trim line ∉ Request.commands) (hline : lines[n]? = some line) :
    let before := converse words false ((lines.take n).map .ok) m
    let run := runLines words number lines m
    before.errors = [] → (before.machine.reply words (Request.ofLine line)).1.error = some e →
      run.failure = some ⟨number + n, e⟩ ∧ run.output = before.output ∧ run.machine = before.machine := by
  induction lines generalizing number m n with
  | nil => simp at hline
  | cons first rest ih =>
    obtain ⟨hfirst, hrest⟩ := List.forall_mem_cons.mp h
    cases n with
    | zero =>
      obtain rfl : first = line := Option.some.inj hline
      intro before run herrors herror
      rcases line_cases words m hfirst with ⟨e', hreply, hrun⟩ | ⟨output, m', hreply, -⟩
      · have he : e' = e := by
          simp only [before, List.take_zero, List.map_nil, converse, hreply, Option.some.injEq] at herror
          exact herror
        simp only [run, hrun, he]
        exact ⟨rfl, rfl, rfl⟩
      · simp [before, converse, hreply] at herror
    | succ n =>
      simp only [List.take_succ_cons, List.map_cons, converse_cons words m hfirst]
      rcases line_cases words m hfirst with ⟨e', hreply, -⟩ | ⟨output, m', hreply, hrun⟩
      · simp [hreply]
      · simp only [hreply, Option.toList_none, List.nil_append]
        intro herrors herror
        obtain ⟨hfailure, houtput, hmachine⟩ := ih (m := m') (number + 1) hrest hline herrors herror
        obtain ⟨hrunOutput, hrunFailure, hrunMachine⟩ := hrun number rest
        refine ⟨?_, ?_, hrunMachine.trans hmachine⟩
        · rw [hrunFailure, hfailure, Nat.add_right_comm, Nat.add_assoc]
        · rw [hrunOutput, houtput]
          exact String.join_cons.symm

/-! ### White space around lines -/

theorem converse_congr {inputs inputs' : List (Except InputError String)} (words : Nat → UInt64)
    (interactive : Bool) (m : Machine FloatComplex)
    (h : inputs.map (Except.map Text.trim) = inputs'.map (Except.map Text.trim)) :
    converse words interactive inputs m = converse words interactive inputs' m := by
  induction inputs generalizing inputs' m with
  | nil => rw [List.map_eq_nil_iff.mp h.symm]
  | cons input rest ih =>
    obtain ⟨input', rest', rfl, hinput, hrest⟩ := List.map_eq_cons_iff.mp h.symm
    rcases input with e | line <;> rcases input' with e' | line' <;> simp only [Except.map] at hinput
    · rw [Except.error.inj hinput]
      rfl
    · cases hinput
    · cases hinput
    · simp only [converse, Request.ofLine_congr (Except.ok.inj hinput), fun m => ih m hrest.symm]

theorem answered_sublist (words : Nat → UInt64) (m : Machine FloatComplex) (lines : List String) :
    (m.answered words lines).Sublist lines := by
  induction lines generalizing m with
  | nil => exact .slnil
  | cons line rest ih =>
    simp only [answered]
    split
    · exact (ih _).cons_cons line
    · exact (ih _).cons line

/-! ### Texts -/

/-- Over a text without commands the dialogue writes what the text without the failing lines prints as a script,
    and leaves the same machine; and the script of the whole text ends at the first line that fails, with its
    error, where the dialogue had come before this line. -/
theorem converse_eq_runScript (words : Nat → UInt64) (m : Machine FloatComplex) (text : String)
    (h : ∀ line ∈ Text.lines text, Text.trim line ∉ Request.commands) :
    let inputs := inputLines text.toUTF8
    let dialogue := converse words false inputs m
    let script := m.runScript words (m.withoutFailures words text)
    (dialogue.ending = .endOfInput ∧ dialogue.output = script.output ∧ script.failure = none ∧
        dialogue.machine = script.machine) ∧
      ∀ n line e, inputs[n]? = some (.ok line) →
        let before := converse words false (inputs.take n) m
        before.errors = [] → (before.machine.reply words (Request.ofLine line)).1.error = some e →
          let script := m.runScript words text
          script.failure = some ⟨n + 1, e⟩ ∧ script.output = before.output ∧ script.machine = before.machine := by
  intro inputs dialogue script
  have hinputs : inputs.map (Except.map Text.trim) = ((Text.wholeLines text).map .ok).map (Except.map Text.trim) :=
    map_trim_inputLines text
  have hcommands : ∀ line ∈ Text.wholeLines text, Text.trim line ∉ Request.commands := by
    intro line hline
    obtain ⟨cut, hcut, htrim⟩ := Text.exists_mem_lines hline
    exact htrim ▸ h cut hcut
  constructor
  · have hdialogue : dialogue = converse words false ((Text.wholeLines text).map .ok) m :=
      converse_congr words false m hinputs
    have hscript : script = runLines words 1 (m.answered words (Text.wholeLines text)) m :=
      runLines_congr words 1 m (Text.map_trim_lines_join (answered_sublist words m _))
    rw [hdialogue, hscript]
    exact converse_eq_runLines words 1 m hcommands
  · intro n line e hn before
    obtain ⟨whole, hwhole, htrim⟩ := exists_wholeLines_getElem? hn
    have hbefore : before = converse words false (((Text.wholeLines text).take n).map .ok) m := by
      refine converse_congr words false m ?_
      rw [List.map_take, List.map_take, List.map_take, hinputs]
    have hscript : m.runScript words text = runLines words 1 (Text.wholeLines text) m :=
      runLines_congr words 1 m (Text.map_trim_lines text)
    rw [hbefore, hscript, Request.ofLine_congr htrim.symm, Nat.add_comm n 1]
    exact runLines_of_error 1 hcommands hwhole

theorem converse_eq_runScript_apply :
    let words : Nat → UInt64 := fun _ => 0
    let m : Machine FloatComplex := fresh
    let text := "INITIALIZE Q 1\nMEASURE Q\n\nAPPLY U Q\nMEASURE Q\n"
    let dialogue := converse words false (inputLines text.toUTF8) m
    let before := converse words false ((inputLines text.toUTF8).take 3) m
    m.withoutFailures words text = "INITIALIZE Q 1\nMEASURE Q\n\nMEASURE Q\n" ∧ dialogue.output = "0\n0\n" ∧
      before.output = "0\n" ∧
      (let script := m.runScript words "INITIALIZE Q 1\nMEASURE Q\n\nMEASURE Q\n"
      dialogue.ending = .endOfInput ∧ dialogue.output = script.output ∧ script.failure = none ∧
        dialogue.machine = script.machine) ∧
      let script := m.runScript words text
      script.failure = some ⟨4, .noGate "U"⟩ ∧ script.output = before.output ∧ script.machine = before.machine := by
  intro words m text dialogue before
  have hkept : m.withoutFailures words text = "INITIALIZE Q 1\nMEASURE Q\n\nMEASURE Q\n" := by decide +kernel
  have hagree := converse_eq_runScript words m text (by decide)
  exact ⟨hkept, by decide +kernel, by decide +kernel, hkept ▸ hagree.1,
    hagree.2 3 "APPLY U Q" (.noGate "U") rfl (by decide +kernel) (by decide +kernel)⟩

end Machine
end Ketscript
