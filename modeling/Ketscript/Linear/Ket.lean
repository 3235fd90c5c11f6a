import Ketscript.Scalar
import Ketscript.Linear.Error

/-! Kets: vectors of amplitudes. -/

namespace Ketscript

abbrev Ket (K : Type) := Array K

namespace Ket
variable {K R : Type} [RealScalar R] [Amplitude K R]

/-- The sum of the squared moduli. The empty sum is negative zero, the neutral element of addition. -/
@[specialize] def normSq (v : Ket K) : R := v.foldl (fun sum z => sum + Amplitude.normSq z) (-0)

/-- The Euclidean norm. -/
@[specialize] def norm (v : Ket K) : R := RealScalar.sqrt (normSq v)

/-- Succeeds on kets of one length. -/
def sameLength (a b : Ket K) : Except LinearError Unit :=
  if a.size = b.size then .ok () else .error (.lengths a.size b.size)

/-- The sum of `conj aᵢ * bᵢ`, conjugate-linear in the first ket. -/
@[specialize] def inner? [Add K] [Mul K] [Zero K] (a b : Ket K) : Except LinearError K := do
  sameLength a b
  return (Array.zipWith (fun x y => Amplitude.conj x * y) a b).foldl (· + ·) 0

def add? [Add K] (a b : Ket K) : Except LinearError (Ket K) := do
  sameLength a b
  return Array.zipWith (· + ·) a b

def scale [Mul K] (v : Ket K) (scalar : K) : Ket K := v.map (· * scalar)

/-- The ket divided by its norm, which must not be zero. -/
def normalize? (v : Ket K) : Except LinearError (Ket K) :=
  let n := norm v
  if n == 0 then .error .zeroNorm else .ok (v.map (Amplitude.divReal · n))

/-- The ket with amplitude one at `index` and zero elsewhere. -/
def basis [Zero K] [One K] (size index : Nat) : Ket K := (Array.replicate size 0).setIfInBounds index 1

/-- How often two divides a number, given a bound on the answer. -/
def trailingZeros : (bound n : Nat) → Nat
  | 0, _ => 0
  | bound + 1, n => if n % 2 = 0 then trailingZeros bound (n / 2) + 1 else 0

/-- The number of qubits of a ket: two divides its length so often, and 64 times if it is empty. -/
def qubits (v : Ket K) : Nat := trailingZeros 64 v.size

end Ket
end Ketscript
