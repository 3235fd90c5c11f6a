import Ketscript.Language.Token
import Ketscript.Linear.Error
import Ketscript.Text.Digits
import Ketscript.Text.Quoted

/-! What can go wrong with an instruction, in its text and in its execution. -/

namespace Ketscript

/-- Causes for which a text, a list of tokens or a literal is no instruction. -/
inductive SyntaxError where
  /-- A statement that begins with the keyword has the wrong number of fields. -/
  | fieldCount (keyword : Keyword)
  | badName (field : String)
  /-- The field after the register of an `INITIALIZE` is not a number. -/
  | qubitsNotNumber (register : String)
  | stateNotBracketed
  | stateNotBinary
  | stateLength
  /-- A field after the names of a `SELECT` is not a number. -/
  | rangeNotNumber (target source : String)
  | loneIdentifier
  /-- A word after a name defines no gate. -/
  | notDefining (word : String)
  | operandCount (name : String) (keyword : Keyword)
  /-- A token where a name or literal should be, or none at all. -/
  | unexpected (token : Option Token)
  | expectedOpen (token : Token)
  | expectedClose (token : Option Token)
  /-- A defining keyword without the name that it defines. -/
  | nameMissing (keyword : Keyword)
  | malformed
  | trailing (token : Token)
  | badCount (literal : String)
  | stateSize (bits : String) (qubits : Nat)
  | notBinary (bits : String)
deriving Repr, DecidableEq

/-- Causes for which an instruction is not executed. -/
inductive InstructionError where
  | invalidSyntax (cause : SyntaxError)
  | noGate (name : String)
  | noRegister (name : String)
  /-- The name belongs to a builtin gate. -/
  | builtinName (name : String)
  /-- The name belongs to a register. -/
  | registerName (name : String)
  /-- The name belongs to a defined gate. -/
  | gateName (name : String)
  | concatSizes (left right : Nat)
  | gateSize (gate register : Nat)
  | selectUnsupported
  | qubitCount (count : Nat)
  | gateTooLarge (dimension : Nat)
  | zeroNorm (register : String)
  | linear (cause : LinearError)
deriving Repr, DecidableEq

/-- The largest number of qubits of a register. -/
def maxQubits : Nat := 20

/-- The largest dimension of a gate that instructions build. -/
def maxGateDimension : Nat := 1024

/-- A token with its kind. -/
def Token.describe : Token → String
  | .keyword word => "Keyword(" ++ word.title ++ ")"
  | .identifier name => "Identifier(" ++ Text.quote '"' name.toList ++ ")"
  | .literal text => "Literal(" ++ Text.quote '"' text.toList ++ ")"
  | .separator mark => "Separator(" ++ Text.quote '\'' [mark] ++ ")"

/-- A token that may be missing. -/
def describeToken? : Option Token → String
  | none => "None"
  | some token => "Some(" ++ token.describe ++ ")"

/-- How many fields a statement that begins with the keyword has after it. -/
def Keyword.arity : Keyword → String
  | .prepare => "2 or 3 fields"
  | .select => "4 fields"
  | .apply => "2 fields"
  | .measure => "1 field"
  | .concat | .tensor => "2 identifiers"
  | .inverse => "1 identifier"

def SyntaxError.message : SyntaxError → String
  | .fieldCount keyword => keyword.spelling ++ " must be followed by " ++ keyword.arity
  | .badName field => s!"invalid identifier name `{field}`"
  | .qubitsNotNumber register => s!"`INITIALIZE {register}` must be followed by a number"
  | .stateNotBracketed => "register's initial state must be wrapped in `[` and `]`"
  | .stateNotBinary => "each qubit's initial state must be either 0 or 1"
  | .stateLength => "register's initial state length must match the number of qubits"
  | .rangeNotNumber target source => s!"`SELECT {target} {source}` must be followed by two numbers"
  | .loneIdentifier => "cannot have an identifier by itself"
  | .notDefining word => s!"invalid keyword `{word}` following an identifier"
  | .operandCount name keyword =>
    "`" ++ name ++ " " ++ keyword.spelling ++ "` must be followed by " ++ keyword.arity
  | .unexpected token => "unexpected token " ++ describeToken? token
  | .expectedOpen token => "expected `[`, found " ++ token.describe
  | .expectedClose token => "expected `]`, found " ++ describeToken? token
  | .nameMissing keyword => keyword.spelling ++ " must follow the name of the gate being defined"
  | .malformed => "empty or malformed token stream"
  | .trailing token => "unexpected trailing token " ++ token.describe
  | .badCount literal => s!"`{literal}` is not a qubit count"
  | .stateSize bits qubits => s!"initial state `{bits}` does not have {qubits} bits"
  | .notBinary bits => s!"initial state `{bits}` is not binary"

def InstructionError.message : InstructionError → String
  | .invalidSyntax cause => "invalid MYQASM syntax: " ++ cause.message
  | .noGate name => s!"gate `{name}` does not exist"
  | .noRegister name => s!"register `{name}` does not exist"
  | .builtinName name => s!"`{name}` is a builtin gate and cannot be redefined"
  | .registerName name => s!"`{name}` is already a register"
  | .gateName name => s!"`{name}` is already a user-defined gate"
  | .concatSizes left right => s!"cannot CONCAT gates of different sizes ({left} and {right})"
  | .gateSize gate register =>
    s!"gate of dimension {gate} cannot act on a register of length {register}"
  | .selectUnsupported => "SELECT is not supported yet"
  | .qubitCount count => s!"qubit count {count} is out of range (1..={maxQubits})"
  | .gateTooLarge dimension =>
    s!"gate of dimension {dimension} exceeds the maximum of {maxGateDimension}"
  | .zeroNorm register => s!"register `{register}` has zero norm and cannot be measured"
  | .linear cause => cause.message

end Ketscript
