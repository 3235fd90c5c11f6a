import Ketscript.Console.Input
import Ketscript.Console.Script
import Ketscript.Linear.Text

/-! The dialogue: lines are executed as they come, and an error is reported without ending it. Besides
    instructions it knows commands that list the registers and the defined gates, and one that ends it. -/

namespace Ketscript

/-- What a line asks of the dialogue. -/
inductive Request where
  | nothing
  | quit
  | listRegisters
  | listGates
  | instruct (line : String)
deriving Repr, DecidableEq

/-- The request of a line, white space around it left out. -/
def Request.ofLine (line : String) : Request :=
  let line := Text.trim line
  if isRemark line then .nothing
  else if line == ":quit" then .quit
  else if line == ":registers" then .listRegisters
  else if line == ":gates" then .listGates
  else .instruct line

/-- The prompt before each line of an interactive dialogue. -/
def prompt : String := "myqasm> "

/-- A line for every register. -/
def Store.renderRegisters (s : Store FloatComplex) : String :=
  String.join (s.registers.entries.map fun (name, v) =>
    name ++ s!" ({v.qubits} qubits): " ++ v.render ++ "\n")

/-- A line and the rows for every defined gate, and an empty line. -/
def Store.renderGates (s : Store FloatComplex) : String :=
  String.join (s.gates.entries.map fun (name, m) =>
    name ++ s!" ({m.rows}x{m.cols}):\n" ++ m.render ++ "\n")

/-- What is printed in answer to a request, and the error that is reported. -/
structure Reply where
  output : String
  error : Option InstructionError

namespace Machine

/-- Answers a request other than one to quit. -/
def reply (words : Nat → UInt64) (m : Machine FloatComplex) : Request → Reply × Machine FloatComplex
  | .nothing | .quit => (⟨"", none⟩, m)
  | .listRegisters => (⟨m.store.renderRegisters, none⟩, m)
  | .listGates => (⟨m.store.renderGates, none⟩, m)
  | .instruct line =>
    match m.execute words line with
    | (.ok (some bits), m) => (⟨renderBits bits ++ "\n", none⟩, m)
    | (.ok none, m) => (⟨"", none⟩, m)
    | (.error e, m) => (⟨"", some e⟩, m)

end Machine

inductive Ending where
  | endOfInput
  | quit
  | unreadable (error : InputError)
deriving Repr, DecidableEq

/-- The error of an ending at which the input could not be read on. -/
def Ending.error? : Ending → Option InputError
  | unreadable e => some e
  | _ => none

/-- A dialogue: what it wrote piece by piece, the errors it reported, how it ended, and the machine that it
    leaves. -/
structure Dialogue where
  written : List String
  errors : List InstructionError
  ending : Ending
  machine : Machine FloatComplex

/-- The pieces written before a line is read. -/
def promptFor (interactive : Bool) : List String := if interactive then [prompt] else []

/-- The dialogue over the lines of an input. An interactive one shows the prompt before each line that it
    reads or waits for, and ends the line of the prompt at which the input ends. -/
def Machine.converse (words : Nat → UInt64) (interactive : Bool) :
    List (Except InputError String) → Machine FloatComplex → Dialogue
  | [], m => ⟨promptFor interactive ++ (if interactive then ["\n"] else []), [], .endOfInput, m⟩
  | .error e :: _, m => ⟨promptFor interactive, [], .unreadable e, m⟩
  | .ok line :: rest, m =>
    match Request.ofLine line with
    | .quit => ⟨promptFor interactive ++ [""], [], .quit, m⟩
    | request =>
      let (reply, m) := m.reply words request
      let dialogue := Machine.converse words interactive rest m
      { dialogue with
        written := promptFor interactive ++ reply.output :: dialogue.written
        errors := reply.error.toList ++ dialogue.errors }

def Dialogue.output (d : Dialogue) : String := String.join d.written

/-- A line for each error that a dialogue reported. -/
def Dialogue.reports (d : Dialogue) : String :=
  String.join (d.errors.map fun e => "error: " ++ e.message ++ "\n")

end Ketscript
