import Ketscript.Console.Repl

/-! The command as a whole: what it prints, what it reports, and its exit code. -/

namespace Ketscript

/-- Where instructions come from. -/
inductive Source where
  /-- Standard input, in dialogue. -/
  | input (bytes : ByteArray)
  /-- A script of a name, or the reason why it cannot be read. -/
  | script (name : String) (contents : Except InputError ByteArray)

/-- What a run of the command leaves behind. -/
structure Completion where
  stdout : String
  stderr : String
  code : UInt32

/-- The completion of a run that stops with a report. -/
def Completion.failed (stdout report : String) : Completion := ⟨stdout, report ++ "\n", 1⟩

/-- Runs a script on a fresh machine, with what it prints before it fails. -/
def runScriptText (words : Nat → UInt64) (text : String) : Completion :=
  let run := Machine.runScript words (Machine.fresh (K := FloatComplex)) text
  match run.failure with
  | none => ⟨run.output, "", 0⟩
  | some e => .failed run.output e.message

/-- Runs the command without a terminal. -/
def complete (words : Nat → UInt64) : Source → Completion
  | .input bytes =>
    let dialogue := Machine.converse words false (inputLines bytes) Machine.fresh
    ⟨dialogue.output, dialogue.reports, if dialogue.ending.error?.isSome then 1 else 0⟩
  | .script name contents =>
    match (do decodeText (← contents).data.toList) with
    | .ok text => runScriptText words text
    | .error e => .failed "" (s!"error: cannot read {name}: " ++ e.message)

end Ketscript
