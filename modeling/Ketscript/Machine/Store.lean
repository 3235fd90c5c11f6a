import Ketscript.Machine.Builtin
import Ketscript.Machine.NameMap
import Ketscript.Machine.Operation
import Ketscript.Linear.Observable

/-! Named registers and named gates, with the operations of the instructions on them. What only reads a store is a
    function of it and gives a result or the first condition that it found violated; what makes a register, applies
    a gate or defines one is an operation on the store. -/

namespace Ketscript

/-- An outcome of a measurement: one bit per qubit, the most significant first. -/
abbrev Bits := List Bool

/-- The registers and the defined gates. -/
structure Store (K : Type) where
  registers : NameMap (Ket K)
  gates : NameMap (Matrix K)

namespace Store
variable {K R : Type}

def empty : Store K := ⟨∅, ∅⟩

/-! ### Gates -/

def isBuiltin (name : String) : Bool := (Builtin.ofName? name).isSome

/-- Whether a name belongs to a builtin or a defined gate. -/
def gateExists (s : Store K) (name : String) : Bool := isBuiltin name || s.gates.contains name

/-- Succeeds if a gate of this name exists. -/
def requireGate (s : Store K) (name : String) : Except InstructionError Unit :=
  if s.gateExists name then .ok () else .error (.noGate name)

/-- Succeeds if a new gate may have this name. -/
def checkDefinable (s : Store K) (name : String) : Except InstructionError Unit :=
  if isBuiltin name then .error (.builtinName name)
  else if s.registers.contains name then .error (.registerName name)
  else if s.gates.contains name then .error (.gateName name)
  else .ok ()

/-- Succeeds if the gates that a definition builds on exist, from the left, and its name is free. -/
def checkDefinition (s : Store K) (name : String) (operands : List String) : Except InstructionError Unit := do
  operands.forM s.requireGate
  s.checkDefinable name

/-- Binds a new name to a matrix. -/
def define (name : String) (m : Matrix K) : Operation (Store K) Unit := do
  let s ← get
  s.checkDefinable name
  modify fun s => { s with gates := s.gates.insert name m }

section
variable [RealScalar R] [Amplitude K R] [Zero K] [One K]

def resolve (s : Store K) (name : String) : Except InstructionError (Matrix K) :=
  match Builtin.ofName? name with
  | some builtin => builtin.matrix? name
  | none => match s.gates.find? name with
    | some m => .ok m
    | none => .error (.noGate name)

@[specialize] def concat [Add K] [Mul K] [BEq K] (s : Store K) (left right : String) :
    Except InstructionError (Matrix K) := do
  let a ← s.resolve left
  let b ← s.resolve right
  match a.mul? b with
  | .ok m => return m
  | .error (.shapes ..) => throw (.concatSizes a.rows b.rows)
  | .error cause => throw (.linear cause)

/-- The Kronecker product of two gates, if it is not too large. -/
@[specialize] def tensor [Mul K] (s : Store K) (left right : String) :
    Except InstructionError (Matrix K) := do
  let a ← s.resolve left
  let b ← s.resolve right
  if maxGateDimension < a.rows * b.rows then throw (.gateTooLarge (a.rows * b.rows))
  return a.tensor b

def inverse (s : Store K) (gate : String) : Except InstructionError (Matrix K) := do
  return (← s.resolve gate).adjoint

/-! ### Registers -/

/-- The index of the basis state that bits spell. -/
def basisIndex? (qubits : Nat) : Option String → Except InstructionError Nat
  | none => .ok 0
  | some bits =>
    -- The length is that in bytes. One of the bytes may be a plus sign, which is no bit.
    if bits.utf8ByteSize ≠ qubits then .error (.invalidSyntax (.stateSize bits qubits))
    else match Text.binary? bits with
      | some index => .ok index
      | none => .error (.invalidSyntax (.notBinary bits))

/-- Creates a register, or overwrites it, with a basis state. -/
def create (name : String) (qubits : Nat) (bits : Option String) : Operation (Store K) Unit := do
  let s ← get
  .failIf (isBuiltin name) (.builtinName name)
  .failIf (s.gates.contains name) (.gateName name)
  .failIf (¬(1 ≤ qubits ∧ qubits ≤ maxQubits)) (.qubitCount qubits)
  let index ← basisIndex? qubits bits
  modify fun s => { s with registers := s.registers.insert name (Ket.basis (1 <<< qubits) index) }

def register? (s : Store K) (name : String) : Except InstructionError (Ket K) :=
  match s.registers.find? name with
  | some v => .ok v
  | none => .error (.noRegister name)

/-- Applies a gate to a register of its dimension. -/
@[specialize] def apply [Add K] [Mul K] (gate register : String) : Operation (Store K) Unit := do
  let s ← get
  -- A missing register is reported before a missing gate.
  let v ← s.register? register
  let m ← s.resolve gate
  .failIf (¬m.IsSquare ∨ m.rows ≠ v.size) (.gateSize m.rows v.size)
  let w ← (m.act? v).mapError InstructionError.linear
  modify fun s => { s with registers := s.registers.insert register w }

end
end Store
end Ketscript
