/-! Tokens of an instruction line. -/

namespace Ketscript

/-- The reserved words. -/
inductive Keyword where
  | prepare
  | select
  | concat
  | tensor
  | inverse
  | apply
  | measure
deriving Repr, DecidableEq

namespace Keyword

/-- The word as it stands in a line. -/
def spelling : Keyword → String
  | prepare => "INITIALIZE"
  | select => "SELECT"
  | concat => "CONCAT"
  | tensor => "TENSOR"
  | inverse => "INVERSE"
  | apply => "APPLY"
  | measure => "MEASURE"

/-- The word with a capital letter, as messages about tokens have it. -/
def title : Keyword → String
  | prepare => "Initialize"
  | select => "Select"
  | concat => "Concat"
  | tensor => "Tensor"
  | inverse => "Inverse"
  | apply => "Apply"
  | measure => "Measure"

def all : List Keyword := [prepare, select, concat, tensor, inverse, apply, measure]

def ofSpelling? (s : String) : Option Keyword := all.find? (·.spelling == s)

end Keyword

/-- A token: a reserved word, a name, a literal, or a bracket. -/
inductive Token where
  | keyword (word : Keyword)
  | identifier (name : String)
  | literal (text : String)
  | separator (mark : Char)
deriving Repr, DecidableEq

end Ketscript
