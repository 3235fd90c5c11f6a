/-! Decimal and binary literals read as natural numbers, without wrap-around. A decimal literal may be too large
    for a 64-bit word, and every use of one has its own way with those that are. -/

namespace Ketscript.Text

/-- A non-empty run of ASCII digits. -/
def isDigits (s : String) : Bool := !s.isEmpty && s.toList.all Char.isDigit

def digitValue (c : Char) : Nat := c.toNat - '0'.toNat

/-- The number that the characters spell in a base, most significant digit first. -/
def valueOfDigits (base : Nat) (cs : List Char) : Nat :=
  cs.foldl (fun value c => base * value + digitValue c) 0

/-- The value of a run of decimal digits. -/
def decimalValue (s : String) : Nat := valueOfDigits 10 s.toList

/-- The largest 64-bit word. -/
def maxWord : Nat := UInt64.size - 1

/-- Why a literal is no 64-bit word. -/
inductive WordError where
  | notDigit
  | tooLarge
deriving Repr, DecidableEq

/-- Reads digits onto `value`, up to the first character that is no digit or takes the value past the largest
    word. -/
def wordOfDigits : List Char → Nat → Except WordError Nat
  | [], value => .ok value
  | c :: cs, value =>
    if c.isDigit then
      -- Past the largest word the rest is not read, whatever it is.
      let next := 10 * value + digitValue c
      if next ≤ maxWord then wordOfDigits cs next else .error .tooLarge
    else .error .notDigit

/-- The digits of a literal, after one plus sign if it starts with one; `none` if no digit can follow. -/
def unsignedDigits? (cs : List Char) : Option (List Char) :=
  match cs with
  | [] => none
  | ['+'] => none
  | '+' :: digits => some digits
  | digits => some digits

/-- A decimal literal as a 64-bit word, with an optional plus sign. -/
def word? (s : String) : Except WordError Nat :=
  match unsignedDigits? s.toList with
  | some digits => wordOfDigits digits 0
  | none => .error .notDigit

/-- A count as a 64-bit word. Larger counts are read as `maxWord`. -/
def count? (s : String) : Option Nat :=
  match word? s with
  | .ok n => some n
  | .error .tooLarge => some maxWord
  | .error .notDigit => none

/-- A binary number, with an optional plus sign. -/
def binary? (s : String) : Option Nat := do
  let digits ← unsignedDigits? s.toList
  if digits.all fun c => c == '0' || c == '1' then some (valueOfDigits 2 digits) else none

end Ketscript.Text
