/-! Binary64 numbers and the dyadic numbers `±m * 2 ^ e` they stand for. -/

namespace Ketscript.Binary64

/-- What a binary64 number stands for. -/
inductive View where
  | nan
  | infinite (negative : Bool)
  | finite (negative : Bool) (mantissa : Nat) (exponent : Int)
deriving Repr, DecidableEq

/-- The least exponent of a finite number, that of the subnormal numbers. -/
def leastExponent : Int := -1074

/-- Reads sign, exponent and mantissa from the 64 bits of a number. -/
def view (x : Float) : View :=
  let bits : Nat := x.toBits.toNat
  let negative := bits.testBit 63
  let biased : Nat := (bits >>> 52) % (1 <<< 11)
  let fraction : Nat := bits % (1 <<< 52)
  if biased = (1 <<< 11) - 1 then if fraction = 0 then .infinite negative else .nan
  else if biased = 0 then .finite negative fraction leastExponent
  else .finite negative ((1 <<< 52) + fraction) (leastExponent + biased - 1)

/-- The number nearest to `±m * 2 ^ e`, of two equally near ones that with the even mantissa. -/
def nearest (negative : Bool) (m : Nat) (e : Int) : Float :=
  .ofModel (.pack (.round .binary64 (if negative then .negative else .positive) m e))

/-- The same for a mantissa known only in its leading bits: `exact` tells that nothing was cut off. Below
    `m` stands half a unit if something was, so `m` needs at least 54 bits. -/
def nearestTo (negative : Bool) (m : Nat) (e : Int) (exact : Bool) : Float :=
  nearest negative (2 * m + (if exact then 0 else 1)) (e - 1)

/-- A number whose sign is plus: positive zero and every number above zero. -/
def hasPlusSign (x : Float) : Bool := 0 < x || x.toBits == 0

def powerOfTwo (e : Int) : Float := nearest false 1 e

/-- The hypotenuse over legs `a` and `b`, where `b` is not the longer one and no square leaves the range of
    normal numbers. A first root `h` is corrected by the excess `h² - (a² + b²)`, which is computed from the
    amount by which `h` exceeds the leg that it is closer to. -/
def correctedHypot (a b : Float) : Float :=
  let h := (a * a + b * b).sqrt
  let excess :=
    if h ≤ 2 * b then
      let d := h - b
      a * (2 * d - a) + (d - 2 * (a - b)) * d
    else
      let d := h - a
      2 * d * (a - 2 * b) + ((4 * d - b) * b + d * d)
  h - excess / (2 * h)

/-- The length of the hypotenuse over legs `x` and `y`. A leg that is too short to count is only added to the
    other; legs with squares out of range are scaled there and back. An infinite leg decides even if the
    other is not a number. -/
def hypot (x y : Float) : Float :=
  if x.isInf || y.isInf then 1.0 / 0.0
  else
    let (a, b) := if x.abs < y.abs then (y.abs, x.abs) else (x.abs, y.abs)
    -- With legs scaled like this no square overflows or becomes subnormal.
    let up := powerOfTwo 600
    let down := powerOfTwo (-600)
    if b * powerOfTwo 54 ≤ a then a + b
    else if powerOfTwo 511 < a then correctedHypot (a * down) (b * down) * up
    else if b < powerOfTwo (-459) then correctedHypot (a * up) (b * up) * down
    else correctedHypot a b

end Ketscript.Binary64
