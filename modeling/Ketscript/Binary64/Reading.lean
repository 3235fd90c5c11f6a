import Ketscript.Text.Digits

/-! Binary64 numbers read from decimal texts. -/

namespace Ketscript.Binary64

/-- A whole number with an optional sign. -/
def integer? (s : List Char) : Option Int :=
  let (negative, digits) := match s with
    | '-' :: rest => (true, rest)
    | '+' :: rest => (false, rest)
    | rest => (false, rest)
  if digits.isEmpty || !digits.all Char.isDigit then none
  else
    let value := Text.valueOfDigits 10 digits
    some (if negative then -value else value)

/-- The number nearest to `m * 10 ^ e`. -/
def ofScientific (m : Nat) (e : Int) : Float := Float.ofScientific m (e < 0) e.natAbs

/-- Digits with at most one point among them, then an exponent if there is one. -/
def unsigned? (cs : List Char) : Option Float := do
  let isMark (c : Char) : Bool := c == 'e' || c == 'E'
  let mantissa := cs.takeWhile fun c => !isMark c
  let exponent ← match cs.dropWhile fun c => !isMark c with
    | [] => some 0
    | _ :: rest => integer? rest
  let whole := mantissa.takeWhile (· != '.')
  let places := (mantissa.dropWhile (· != '.')).drop 1
  if (whole.isEmpty && places.isEmpty) || !(whole ++ places).all Char.isDigit then none
  else some (ofScientific (Text.valueOfDigits 10 (whole ++ places)) (exponent - places.length))

/-- The number that a text stands for: a decimal number, rounded once, or `inf`, `-inf` or `NaN`. -/
def ofText? (s : String) : Option Float :=
  match s.toList with
  | ['N', 'a', 'N'] => some (0.0 / 0.0)
  | ['i', 'n', 'f'] => some (1.0 / 0.0)
  | ['-', 'i', 'n', 'f'] => some (-1.0 / 0.0)
  | '-' :: rest => (unsigned? rest).map (-·)
  | '+' :: rest => unsigned? rest
  | cs => unsigned? cs

end Ketscript.Binary64
