import Ketscript.Language.Instruction
import Ketscript.Machine.Measurement

/-! The machine: a store and the number of random words drawn so far. An instruction is an operation on the machine,
    made of operations on the store and on the stream of random words. So it yields an answer and the next machine;
    the stream is a parameter, read at the position of the machine. -/

namespace Ketscript

/-- The state that instructions act on. -/
structure Machine (K : Type) where
  store : Store K
  drawn : Nat

namespace Machine
variable {K R : Type}

def fresh : Machine K := ⟨Store.empty, 0⟩

/-- An answer is the outcome of a measurement, nothing, or an error. -/
abbrev Answer := Except InstructionError (Option Bits)

/-- An operation on the store of a machine. -/
@[inline] def onStore {α : Type} (x : Operation (Store K) α) : Operation (Machine K) α :=
  x.onPart Machine.store fun m store => { m with store }

/-- An operation on the position in the stream of random words. -/
@[inline] def onStream {α : Type} (x : Operation Nat α) : Operation (Machine K) α :=
  x.onPart Machine.drawn fun m drawn => { m with drawn }

/-- The number of qubits that a literal asks for. -/
def qubitCount (literal : String) : Except InstructionError Nat :=
  match Text.count? literal with
  | some n => .ok n
  | none => .error (.invalidSyntax (.badCount literal))

variable [RealScalar R] [Amplitude K R] [Add K] [Mul K] [Zero K] [One K] [BEq K]

/-- Defines a gate: the gates that it builds on and its name are checked, its matrix is computed, and its name is
    bound to it. -/
@[inline] def defineGate (name : String) (operands : List String)
    (matrix? : Store K → Except InstructionError (Matrix K)) : Operation (Machine K) Unit := do
  let m ← get
  m.store.checkDefinition name operands
  let u ← matrix? m.store
  onStore (Store.define name u)

/-- What an instruction does. Only a measurement has an outcome. -/
@[specialize] def perform (words : Nat → UInt64) : Instruction → Operation (Machine K) (Option Bits)
  | .prepare register qubits state => do
    let count ← qubitCount qubits
    onStore (Store.create register count state)
    return none
  | .select .. => throw .selectUnsupported
  | .concat name left right => do
    defineGate name [left, right] fun s => s.concat left right
    return none
  | .tensor name left right => do
    defineGate name [left, right] fun s => s.tensor left right
    return none
  | .inverse name gate => do
    defineGate name [gate] fun s => s.inverse gate
    return none
  | .apply gate register => do
    onStore (Store.apply gate register)
    return none
  | .measure register => do
    let m ← get
    let bits ← onStream (m.store.measure words register)
    return some bits

/-- What a line does: it is read as an instruction, and this is performed. -/
@[specialize] def performLine (words : Nat → UInt64) (line : String) : Operation (Machine K) (Option Bits) := do
  let instruction ← (Instruction.ofLine? line).mapError InstructionError.invalidSyntax
  perform words instruction

/-- Performs an instruction. -/
@[specialize] def run (words : Nat → UInt64) (m : Machine K) (instruction : Instruction) : Answer × Machine K :=
  (perform words instruction).on m

/-- Reads a line as an instruction and performs it. -/
@[specialize] def execute (words : Nat → UInt64) (m : Machine K) (line : String) : Answer × Machine K :=
  (performLine words line).on m

end Machine
end Ketscript
