/-! Scalars. A real scalar type has ordered field operations, square roots and the functions of the circle;
    an amplitude type has two reals as its parts. Every algorithm of the library is written over these two
    classes: it runs on binary64 numbers, and it can be read over the exact real and complex numbers.

    The formulas for amplitudes are those of a library of complex numbers. That it computes a modulus, a number
    from its modulus and angle, or a square root in the steps that are written here, each step rounded once, is
    an assumption on that library. -/

namespace Ketscript

/-- What the library asks of its real numbers. -/
class RealScalar (R : Type) extends Add R, Sub R, Mul R, Div R, Neg R, Zero R, LT R, LE R, BEq R where
  decLt : DecidableLT R
  decLe : DecidableLE R
  /-- The number `m / 10 ^ k`. -/
  ofDecimal : (m k : Nat) → R
  abs : R → R
  sqrt : R → R
  /-- The length of the hypotenuse over two legs. -/
  hypot : R → R → R
  /-- The logarithm to base two. -/
  log2 : R → R
  pi : R
  cos : R → R
  sin : R → R
  /-- The angle of the point `(x, y)`, with `y` given first. -/
  atan2 : R → R → R
  /-- Zero and every number above it have the sign plus; a negative zero has not. -/
  hasPlusSign : R → Bool

namespace RealScalar
variable {R : Type} [RealScalar R]

instance (priority := low) : DecidableLT R := decLt

instance (priority := low) : DecidableLE R := decLe

def ofNat (n : Nat) : R := ofDecimal n 0

/-- The number, or its negative if the sign of `sign` is not plus. -/
def withSign (sign x : R) : R := if hasPlusSign sign then x else -x

/-- Largest deviation at which two amplitudes or matrix entries count as equal. -/
def tolerance : R := ofDecimal 1 9

end RealScalar

/-- Complex numbers with parts in `R`. Sums, products and the comparison of amplitudes are taken from the
    usual classes, so that they can be those of any ring. -/
class Amplitude (K : Type) (R : outParam Type) where
  ofParts : R → R → K
  re : K → R
  im : K → R

namespace Amplitude
open RealScalar
variable {K R : Type} [RealScalar R] [Amplitude K R]

def ofReal (x : R) : K := ofParts x 0

def conj (z : K) : K := ofParts (re z) (-im z)

def normSq (z : K) : R := re z * re z + im z * im z

def norm (z : K) : R := hypot (re z) (im z)

/-- The product with a real number. -/
def mulReal (z : K) (x : R) : K := ofParts (re z * x) (im z * x)

/-- The quotient by a real number. -/
def divReal (z : K) (x : R) : K := ofParts (re z / x) (im z / x)

/-- The number with a modulus and an angle. -/
def ofPolar (r angle : R) : K := ofParts (r * cos angle) (r * sin angle)

/-- The square root with a real part that is not negative. On the axes the root is taken without angles; on
    the negative real axis the sign of the imaginary part, which may be that of a zero, chooses the root. -/
def sqrt (z : K) : K :=
  if im z == 0 then
    if hasPlusSign (re z) then ofParts (RealScalar.sqrt (re z)) (im z)
    else ofParts 0 (withSign (im z) (RealScalar.sqrt (-re z)))
  else if re z == 0 then
    let x := RealScalar.sqrt (RealScalar.abs (im z) / ofNat 2)
    ofParts x (withSign (im z) x)
  else ofPolar (RealScalar.sqrt (norm z)) (atan2 (im z) (re z) / ofNat 2)

end Amplitude
end Ketscript
