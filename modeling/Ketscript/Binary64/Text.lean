import Ketscript.Binary64.Shortest

/-! Written forms of binary64 numbers: the shortest digits, and a fixed number of digits after the point. Infinities
    are `inf` and `-inf` in both forms, and what is not a number is `NaN`. -/

namespace Ketscript.Binary64

/-- The text of a number from that of its absolute value. -/
def signed (x : Float) (finite : (mantissa : Nat) → (exponent : Int) → String) : String :=
  match view x with
  | .nan => "NaN"
  | .infinite negative => if negative then "-inf" else "inf"
  | .finite negative m e => (if negative then "-" else "") ++ finite m e

def zeros (n : Nat) : String := String.ofList (List.replicate n '0')

/-- The digits with a point before the last `places` of them, which have zeros put in front if there are
    too few. -/
def withPoint (digits : String) (places : Nat) : String :=
  if places = 0 then digits
  else
    let padded := (zeros (places + 1 - digits.length) ++ digits).toList
    String.ofList (padded.take (padded.length - places) ++ '.' :: padded.drop (padded.length - places))

/-- Shortest digits without an exponent: `1`, `0.000000001`, `1000000000000000000000`. -/
def positional (x : Float) : String :=
  signed x fun m e =>
    if m = 0 then "0"
    else
      let d := shortest m e
      if 0 ≤ d.exponent then toString d.digits ++ zeros d.exponent.toNat
      else withPoint (toString d.digits) (-d.exponent).toNat

/-- The whole number nearest to `n / d`, of two equally near ones the even one. -/
def roundDiv (n d : Nat) : Nat :=
  let q := n / d
  let r := n % d
  if 2 * r < d ∨ (2 * r = d ∧ q % 2 = 0) then q else q + 1

/-- `m * 2 ^ e * 10 ^ k` rounded to a whole number. -/
def roundScaled (m : Nat) (e k : Int) : Nat :=
  roundDiv ((m * Nat.pow 10 k.toNat) <<< e.toNat) (Nat.pow 10 (-k).toNat <<< (-e).toNat)

/-- All digits before the point and `places` after it. -/
def fixed (places : Nat) (x : Float) : String :=
  signed x fun m e => withPoint (toString (roundScaled m e places)) places

end Ketscript.Binary64
