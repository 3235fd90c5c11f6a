import Ketscript.Linear.Matrix
import Ketscript.Binary64.Text

/-! Checks that a ket is normalized, and that a matrix is unitary or hermitian. -/

namespace Ketscript

/-- A failed check with the tolerance at which it failed. -/
inductive ValidationError (R : Type) where
  | notNormalized (normSq tolerance : R)
  | notUnitary (tolerance : R)
  | notHermitian (tolerance : R)
deriving Repr, DecidableEq

def ValidationError.message : ValidationError Float → String
  | .notNormalized normSq tolerance =>
    "state vector normalization failed: sum(|c_i|^2) = " ++ Binary64.positional normSq ++
      " (deviation > " ++ Binary64.positional tolerance ++ ")"
  | .notUnitary tolerance => "matrix is not unitary within tolerance " ++ Binary64.positional tolerance
  | .notHermitian tolerance => "matrix is not hermitian within tolerance " ++ Binary64.positional tolerance

variable {K R : Type} [RealScalar R] [Amplitude K R]

/-- The squared norm must not deviate from one by more than the tolerance. -/
def Ket.checkNormalized (v : Ket K) (tolerance : R) : Except (ValidationError R) Unit :=
  let n := Ket.normSq v
  if tolerance < RealScalar.abs (n - RealScalar.ofNat 1) then .error (.notNormalized n tolerance) else .ok ()

/-- The matrix times its adjoint must be the identity up to the tolerance. -/
def Matrix.checkUnitary [Add K] [Mul K] [Zero K] [One K] [BEq K] (m : Matrix K) (tolerance : R) :
    Except (ValidationError R) Unit :=
  if m.isUnitary tolerance then .ok () else .error (.notUnitary tolerance)

/-- The matrix must be its adjoint up to the tolerance. -/
def Matrix.checkHermitian [Zero K] (m : Matrix K) (tolerance : R) : Except (ValidationError R) Unit :=
  if m.isHermitian tolerance then .ok () else .error (.notHermitian tolerance)

end Ketscript
