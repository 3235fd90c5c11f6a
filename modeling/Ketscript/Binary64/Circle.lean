import Ketscript.Binary64.Basic

/-! Sine and cosine of a binary64 angle. The values are those of the system's functions, of which nothing can be
    proved. It is assumed of these functions that they err by less than `2 ^ -52`. Each value is checked against
    the assumption: it has to lie next to the true value, and only where it does not the true value stands in for
    it. So what is proved of sine and cosine is true of a system on which the assumption holds.

    The true value is computed on natural numbers that count units of `2 ^ -precision`: the angle itself is such
    a number, half turns are taken off with enough digits of π for the largest angle, and the Taylor series is
    summed at what is left. -/

namespace Ketscript.Binary64.FixedPoint

/-- Bits after the binary point. Every binary64 number is a whole number of units, and the largest is
    reduced with an error below `2 ^ -170`. -/
def precision : Nat := 1200

/-- One, counted in units. -/
def unit : Nat := 1 <<< precision

/-- `term / d - term / (q² (d + 2)) + term / (q⁴ (d + 4)) - …`, at most `n` terms. -/
def arccotSeries (q : Nat) : (n : Nat) → (term d : Nat) → Int
  | 0, _, _ => 0
  | n + 1, term, d => if term = 0 then 0 else (term / d : Nat) - arccotSeries q n (term / (q * q)) (d + 2)

/-- The arc cotangent of `q` in units of `2 ^ -(precision + 64)`. -/
def arccot (q : Nat) : Int := arccotSeries q precision ((unit <<< 64) / q) 1

/-- A quarter turn, π / 2, in units: Machin's formula. -/
def quarterTurn : Nat := (8 * arccot 5 - 2 * arccot 239).toNat >>> 64

/-- The series `term - term y / ((k + 1) (k + 2)) + …`, `y` in units, at most `n` terms. From the term 1
    and `k = 0` it is the cosine of the square root of `y`, from the term `x` and `k = 1` its sine. -/
def series (y : Nat) : (n : Nat) → (term k : Nat) → Int
  | 0, _, _ => 0
  | n + 1, term, k =>
    if term = 0 then 0
    else (term : Int) - series y n (term * y / unit / ((k + 1) * (k + 2))) (k + 2)

/-- Terms of the series that reach the last unit for angles up to an eighth of a turn. -/
def seriesLength : Nat := 120

/-- Cosine and sine, in units, of an angle of at most an eighth of a turn. -/
def small (angle : Int) : Int × Int :=
  let y := angle.natAbs * angle.natAbs / unit
  let sine := series y seriesLength angle.natAbs 1
  (series y seriesLength unit 0, if angle < 0 then -sine else sine)

/-- Cosine and sine, in units, of any angle in units that is not negative. -/
def ofUnits (angle : Nat) : Int × Int :=
  -- The nearest number of quarter turns, so that at most an eighth of a turn is left on either side.
  let quarters := (2 * angle + quarterTurn) / (2 * quarterTurn)
  let (c, s) := small (angle - quarters * quarterTurn : Int)
  match quarters % 4 with
  | 0 => (c, s)
  | 1 => (-s, c)
  | 2 => (-c, -s)
  | _ => (s, -c)

/-- The binary64 number nearest to a number of units. -/
def round (x : Int) : Float :=
  let m := x.natAbs
  let cut := m.log2 - 127
  nearestTo (x < 0) (m >>> cut) (cut - precision) ((m >>> cut) <<< cut = m)

/-- A finite number in units. -/
def toUnits (negative : Bool) (m : Nat) (e : Int) : Int :=
  let units := m <<< (e + precision).toNat
  if negative then -units else units

/-- Whether a number deviates by at most `2 ^ -52` from a number of units. -/
def isNear (x : Float) (exact : Int) : Bool :=
  match view x with
  | .finite negative m e => (toUnits negative m e - exact).natAbs ≤ unit >>> 52
  | _ => false

/-- A guess at a number of units if it is near, else the number nearest to it. A guess by a function that is as
    accurate as is assumed is near, and stays what it is. -/
def checked (guess : Float) (exact : Int) : Float := if isNear guess exact then guess else round exact

end Ketscript.Binary64.FixedPoint

namespace Ketscript.Binary64
open FixedPoint

/-- The cosine, assumed to be that of the system. It is not a number at an angle that is infinite or not a
    number. -/
def cos (angle : Float) : Float :=
  match view angle with
  | .finite _ m e => checked angle.cos (ofUnits (toUnits false m e).toNat).1
  | _ => 0.0 / 0.0

/-- The sine, assumed to be that of the system. It is not a number at an angle that is infinite or not a
    number. -/
def sin (angle : Float) : Float :=
  match view angle with
  | .finite negative m e =>
    let s := (ofUnits (toUnits false m e).toNat).2
    if m = 0 then angle else checked angle.sin (if negative then -s else s)
  | _ => 0.0 / 0.0

end Ketscript.Binary64
