import Ketscript.Language.Error
import Ketscript.Linear.Matrix

/-! The builtin gates: `H`, `CNOT`, the identities `I` followed by a dimension, and the phase gates `R`
    followed by an angle in half turns. -/

namespace Ketscript

/-- A builtin gate. The dimension of an identity is a word, and the largest one if its digits spell none. An
    angle is `angle / 10 ^ places` half turns. -/
inductive Builtin where
  | hadamard
  | cnot
  | identity (dimension : Nat)
  | phase (angle places : Nat)
deriving Repr, DecidableEq

namespace Builtin

/-- An angle: digits with at most one point among them. The value is that of all digits, and the places
    are those after the point. -/
def angle? (cs : List Char) : Option (Nat × Nat) :=
  let whole := cs.takeWhile Char.isDigit
  match cs.dropWhile Char.isDigit with
  | [] => if whole.isEmpty then none else some (Text.valueOfDigits 10 whole, 0)
  | point :: places =>
    if point = '.' ∧ places.all Char.isDigit ∧ ¬(whole.isEmpty ∧ places.isEmpty) then
      some (Text.valueOfDigits 10 (whole ++ places), places.length)
    else none

def ofName? (name : String) : Option Builtin :=
  match name.toList with
  | ['H'] => some hadamard
  | ['C', 'N', 'O', 'T'] => some cnot
  | 'I' :: digits =>
    if !digits.isEmpty && digits.all Char.isDigit then
      some (identity ((Text.wordOfDigits digits 0).toOption.getD Text.maxWord))
    else none
  | 'R' :: angle => (angle? angle).map fun (value, places) => phase value places
  | _ => none

variable {K R : Type} [RealScalar R] [Amplitude K R]

/-- The number `1 / √2`. -/
def inverseRootTwo : R := RealScalar.sqrt (RealScalar.ofDecimal 5 1)

/-- The rows of `H`. -/
def hadamardRows : Array (Array R) := #[#[inverseRootTwo, inverseRootTwo], #[inverseRootTwo, -inverseRootTwo]]

/-- The rows of `CNOT`, which exchanges the last two basis states. -/
def cnotRows : Array (Array R) :=
  let one : R := RealScalar.ofNat 1
  #[#[one, 0, 0, 0], #[0, one, 0, 0], #[0, 0, 0, one], #[0, 0, one, 0]]

/-- The rows of a phase gate, which keeps the first basis state and turns the second by an angle. -/
def phaseRows (angle : R) : Array (Array K) :=
  let zero : K := Amplitude.ofReal 0
  #[#[Amplitude.ofReal (RealScalar.ofNat 1), zero], #[zero, Amplitude.ofPolar (RealScalar.ofNat 1) angle]]

/-- The matrix of a builtin gate. An identity must have a dimension from one to the maximum; `name` is for
    the error if it has not. -/
def matrix? [Zero K] [One K] (name : String) : Builtin → Except InstructionError (Matrix K)
  | hadamard => (Matrix.ofRealRows? hadamardRows).mapError .linear
  | cnot => (Matrix.ofRealRows? cnotRows).mapError .linear
  | identity n =>
    if maxGateDimension < n then .error (.gateTooLarge n)
    else match Matrix.identity? n with
      | .ok m => .ok m
      | .error .empty => .error (.noGate name)
      | .error cause => .error (.linear cause)
  | phase value places =>
    (Matrix.ofRows? (phaseRows (RealScalar.pi * RealScalar.ofDecimal value places))).mapError .linear

end Builtin
end Ketscript
