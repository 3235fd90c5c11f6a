import Ketscript.Machine.Step
import Ketscript.Text.Blank

/-! Scripts: texts with an instruction on each line. Blank lines and comments are passed over, and the first
    line that fails ends the run. -/

namespace Ketscript

/-- The error of a line, which is counted from one. -/
structure ScriptError where
  line : Nat
  cause : InstructionError
deriving Repr, DecidableEq

def ScriptError.message (e : ScriptError) : String := s!"line {e.line}: " ++ e.cause.message

/-- A trimmed line without an instruction: it is empty or begins with a number sign. -/
def isRemark (line : String) : Bool := line.isEmpty || line.toList.head? == some '#'

/-- What a run leaves: the outcomes of its measurements in order, its error if it failed, and the machine. -/
structure ScriptRun (K : Type) where
  outcomes : List Bits
  failure : Option ScriptError
  machine : Machine K

namespace Machine
variable {K R : Type}
variable [RealScalar R] [Amplitude K R] [Add K] [Mul K] [Zero K] [One K] [BEq K]

/-- Runs lines that are numbered from `number` on. -/
@[specialize] def runLines (words : Nat → UInt64) :
    (number : Nat) → List String → Machine K → ScriptRun K
  | _, [], m => ⟨[], none, m⟩
  | number, line :: rest, m =>
    let line := Text.trim line
    if isRemark line then runLines words (number + 1) rest m
    else match m.execute words line with
      | (.error cause, m) => ⟨[], some ⟨number, cause⟩, m⟩
      | (.ok none, m) => runLines words (number + 1) rest m
      | (.ok (some bits), m) =>
        let run := runLines words (number + 1) rest m
        { run with outcomes := bits :: run.outcomes }

@[specialize] def runScript (words : Nat → UInt64) (m : Machine K) (text : String) : ScriptRun K :=
  runLines words 1 (Text.lines text) m

/-- Runs lines that are numbered from `number` on, and hands each outcome over as soon as it is measured.
    `receive` takes it into what was received so far. -/
@[specialize] def streamLines {S : Type} (words : Nat → UInt64) (receive : S → Bits → S) :
    (number : Nat) → List String → S → Machine K → S × Except ScriptError Unit × Machine K
  | _, [], received, m => (received, .ok (), m)
  | number, line :: rest, received, m =>
    let line := Text.trim line
    if isRemark line then streamLines words receive (number + 1) rest received m
    else match m.execute words line with
      | (.error cause, m) => (received, .error ⟨number, cause⟩, m)
      | (.ok none, m) => streamLines words receive (number + 1) rest received m
      | (.ok (some bits), m) => streamLines words receive (number + 1) rest (receive received bits) m

@[specialize] def streamScript {S : Type} (words : Nat → UInt64) (receive : S → Bits → S) (received : S)
    (m : Machine K) (text : String) : S × Except ScriptError Unit × Machine K :=
  streamLines words receive 1 (Text.lines text) received m

/-- The outcomes of a script that succeeds, or its error. -/
@[specialize] def outcomesOfScript (words : Nat → UInt64) (m : Machine K) (text : String) :
    Except ScriptError (List Bits) × Machine K :=
  let (outcomes, ending, m) := m.streamScript words (fun seen bits => seen ++ [bits]) [] text
  (ending.map fun () => outcomes, m)

end Machine

/-- Bits as a row of digits. -/
def renderBits (bits : Bits) : String := String.ofList (bits.map fun bit => if bit then '1' else '0')

/-- What a run prints: a line for each outcome. -/
def ScriptRun.output {K : Type} (run : ScriptRun K) : String :=
  String.join (run.outcomes.map fun bits => renderBits bits ++ "\n")

end Ketscript
