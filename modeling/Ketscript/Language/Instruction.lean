import Ketscript.Language.Lexer

/-! Instructions, read from tokens and written as lines. -/

namespace Ketscript

/-- An instruction. Names and literals are kept as they are written. -/
inductive Instruction where
  /-- Make the register a basis state of so many qubits, zero in all of them unless bits are given. -/
  | prepare (register qubits : String) (state : Option String)
  /-- Reserved: it is read and never executed. -/
  | select (target source start length : String)
  /-- Define a gate as a matrix product. -/
  | concat (name left right : String)
  /-- Define a gate as a Kronecker product. -/
  | tensor (name left right : String)
  /-- Define a gate as an adjoint. -/
  | inverse (name gate : String)
  | apply (gate register : String)
  | measure (register : String)
deriving Repr, DecidableEq

namespace Instruction

def keyword : Instruction → Keyword
  | prepare .. => .prepare
  | select .. => .select
  | concat .. => .concat
  | tensor .. => .tensor
  | inverse .. => .inverse
  | apply .. => .apply
  | measure .. => .measure

/-- The line that reads as the instruction. -/
def render : Instruction → String
  | prepare register qubits none => s!"INITIALIZE {register} {qubits}"
  | prepare register qubits (some bits) => s!"INITIALIZE {register} {qubits} [{bits}]"
  | select target source start length => s!"SELECT {target} {source} {start} {length}"
  | concat name left right => s!"{name} CONCAT {left} {right}"
  | tensor name left right => s!"{name} TENSOR {left} {right}"
  | inverse name gate => s!"{name} INVERSE {gate}"
  | apply gate register => s!"APPLY {gate} {register}"
  | measure register => s!"MEASURE {register}"

/-- Takes the text of a name or a literal off the tokens. -/
def takeText : List Token → Except SyntaxError (String × List Token)
  | .identifier text :: rest | .literal text :: rest => .ok (text, rest)
  | token :: _ => .error (.unexpected (some token))
  | [] => .error (.unexpected none)

/-- Takes an initial state in brackets off the tokens, if any are left. -/
def takeState : List Token → Except SyntaxError (Option String × List Token)
  | [] => .ok (none, [])
  | .separator '[' :: rest => do
    let (bits, rest) ← takeText rest
    match rest with
    | .separator ']' :: rest => .ok (some bits, rest)
    | rest => .error (.expectedClose rest.head?)
  | token :: _ => .error (.expectedOpen token)

/-- Takes what follows an opening keyword off the tokens. -/
def takeStatement : Keyword → List Token → Except SyntaxError (Instruction × List Token)
  | .prepare, ts => do
    let (register, ts) ← takeText ts
    let (qubits, ts) ← takeText ts
    let (state, ts) ← takeState ts
    return (prepare register qubits state, ts)
  | .select, ts => do
    let (target, ts) ← takeText ts
    let (source, ts) ← takeText ts
    let (start, ts) ← takeText ts
    let (length, ts) ← takeText ts
    return (select target source start length, ts)
  | .apply, ts => do
    let (gate, ts) ← takeText ts
    let (register, ts) ← takeText ts
    return (apply gate register, ts)
  | .measure, ts => do
    let (register, ts) ← takeText ts
    return (measure register, ts)
  | word, _ => .error (.nameMissing word)

/-- Takes what follows a name and a keyword off the tokens. -/
def takeDefinition (name : String) : Keyword → List Token → Except SyntaxError (Instruction × List Token)
  | .concat, ts => do
    let (left, ts) ← takeText ts
    let (right, ts) ← takeText ts
    return (concat name left right, ts)
  | .tensor, ts => do
    let (left, ts) ← takeText ts
    let (right, ts) ← takeText ts
    return (tensor name left right, ts)
  | .inverse, ts => do
    let (gate, ts) ← takeText ts
    return (inverse name gate, ts)
  | word, _ => .error (.notDefining word.spelling)

/-- The instruction that the tokens spell, all of them. -/
def ofTokens? (tokens : List Token) : Except SyntaxError Instruction := do
  let (instruction, rest) ← match tokens with
    | .keyword word :: ts => takeStatement word ts
    | .identifier name :: .keyword word :: ts => takeDefinition name word ts
    | _ => .error .malformed
  match rest with
  | [] => return instruction
  | token :: _ => .error (.trailing token)

def ofLine? (line : String) : Except SyntaxError Instruction := do ofTokens? (← Token.ofLine line)

end Instruction
end Ketscript
