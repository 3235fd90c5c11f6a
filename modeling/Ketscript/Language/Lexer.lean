import Ketscript.Language.Error
import Ketscript.Text.Alphanumeric
import Ketscript.Text.Fields

/-! From a line to its tokens. A line is cut at single spaces. If its first field is a keyword that begins
    a statement, the statement has a fixed shape; otherwise the line defines the gate of that name. -/

namespace Ketscript

/-- Names are not empty and consist of letters and digits of any script, hyphens, underscores and dots. -/
def isName (s : String) : Bool :=
  !s.isEmpty && s.toList.all fun c => Text.isAlphanumeric c || c == '-' || c == '_' || c == '.'

namespace Token

def name? (field : String) : Except SyntaxError Token :=
  if isName field then .ok (.identifier field) else .error (.badName field)

def number? (field : String) (cause : SyntaxError) : Except SyntaxError Token :=
  if Text.isDigits field then .ok (.literal field) else .error cause

/-- The text between brackets. -/
def unbracket? (field : String) : Option String :=
  match field.toList with
  | '[' :: rest => if rest.getLast? = some ']' then some (String.ofList rest.dropLast) else none
  | _ => none

/-- An initial state in brackets, one bit for every qubit of a literal of digits. -/
def state? (qubits field : String) : Except SyntaxError (List Token) :=
  match unbracket? field with
  | none => .error .stateNotBracketed
  | some bits =>
    if bits.toList.any fun c => c != '0' && c != '1' then .error .stateNotBinary
    -- A literal that is too large for a word is the length of no text.
    else if (Text.word? qubits).toOption ≠ some bits.length then .error .stateLength
    else .ok [.separator '[', .literal bits, .separator ']']

def prepareTokens : List String → Except SyntaxError (List Token)
  | [register, qubits] => do
    return [.keyword .prepare, ← name? register, ← number? qubits (.qubitsNotNumber register)]
  | [register, qubits, state] => do
    -- The name and the number are checked before the state.
    let opening := [.keyword .prepare, ← name? register, ← number? qubits (.qubitsNotNumber register)]
    return opening ++ (← state? qubits state)
  | _ => .error (.fieldCount .prepare)

def selectTokens : List String → Except SyntaxError (List Token)
  | [target, source, start, length] => do
    return [.keyword .select, ← name? target, ← name? source,
      ← number? start (.rangeNotNumber target source), ← number? length (.rangeNotNumber target source)]
  | _ => .error (.fieldCount .select)

def applyTokens : List String → Except SyntaxError (List Token)
  | [gate, register] => do return [.keyword .apply, ← name? gate, ← name? register]
  | _ => .error (.fieldCount .apply)

def measureTokens : List String → Except SyntaxError (List Token)
  | [register] => do return [.keyword .measure, ← name? register]
  | _ => .error (.fieldCount .measure)

/-- The tokens of a line that begins with a name. -/
def definitionTokens (name : String) (rest : List String) : Except SyntaxError (List Token) := do
  let opening ← name? name
  match rest with
  | [] => .error .loneIdentifier
  | word :: operands =>
    match Keyword.ofSpelling? word with
    | some .concat => operandTokens opening .concat 2 operands
    | some .tensor => operandTokens opening .tensor 2 operands
    | some .inverse => operandTokens opening .inverse 1 operands
    | _ => .error (.notDefining word)
where
  operandTokens (opening : Token) (keyword : Keyword) (count : Nat) (operands : List String) :
      Except SyntaxError (List Token) := do
    if operands.length ≠ count then .error (.operandCount name keyword)
    return opening :: .keyword keyword :: (← operands.mapM name?)

/-- The tokens of a line, or the first reason why it has none. -/
def ofLine (line : String) : Except SyntaxError (List Token) :=
  match Text.fields ' ' line with
  | [] => .error (.badName "")
  | first :: rest =>
    match Keyword.ofSpelling? first with
    | some .prepare => prepareTokens rest
    | some .select => selectTokens rest
    | some .apply => applyTokens rest
    | some .measure => measureTokens rest
    | _ => definitionTokens first rest

end Token
end Ketscript
