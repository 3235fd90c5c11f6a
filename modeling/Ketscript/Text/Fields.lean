/-! Cutting a text at a separator, and a script into its lines. -/

namespace Ketscript.Text

/-- One character more at the front of the first field, or a new empty field if it is the separator. -/
def consField (sep c : Char) (fields : List (List Char)) : List (List Char) :=
  if c = sep then [] :: fields
  else match fields with
    | [] => [[c]]
    | field :: rest => (c :: field) :: rest

/-- The pieces between the separators: one more than there are separators. -/
def splitChars (sep : Char) (cs : List Char) : List (List Char) :=
  cs.foldr (consField sep) [[]]

/-- The fields of a text, cut at every single separator; neighbouring separators enclose an empty field. -/
def fields (sep : Char) (s : String) : List String :=
  (splitChars sep s.toList).map String.ofList

/-- A line without the carriage return that ends it, if one does. -/
def dropReturn (line : List Char) : List Char :=
  if line.getLast? = some '\r' then line.dropLast else line

/-- The lines of a text. Each line feed ends a line and takes one carriage return before it along; what
    follows the last line feed is a line unless it is empty, and keeps its carriage returns. -/
def lineChars (cs : List Char) : List (List Char) :=
  let pieces := splitChars '\n' cs
  pieces.dropLast.map dropReturn ++ (pieces.getLast?.toList.filter fun piece => !piece.isEmpty)

def lines (s : String) : List String := (lineChars s.toList).map String.ofList

end Ketscript.Text
