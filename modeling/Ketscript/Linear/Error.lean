/-! What can go wrong in linear algebra. -/

namespace Ketscript

/-- Causes of failure of the operations on kets and matrices. -/
inductive LinearError where
  /-- A matrix without rows or without columns. -/
  | empty
  /-- Rows of different lengths. -/
  | ragged
  | notSquare (rows cols : Nat)
  /-- Shapes that have no product or no sum. -/
  | shapes (leftRows leftCols rightRows rightCols : Nat)
  | lengths (left right : Nat)
  | index (index length : Nat)
  /-- A matrix has no entry at this place. -/
  | noEntry (row col : Nat)
  | zeroNorm
  | notHermitian
  /-- The matrix is neither diagonal nor two by two. -/
  | noEigenSolution
deriving Repr, DecidableEq

def LinearError.message : LinearError → String
  | .empty => "a matrix needs at least one row and one column"
  | .ragged => "matrix rows must all have the same length"
  | .notSquare rows cols => s!"expected a square matrix, found {rows}x{cols}"
  | .shapes a b c d => s!"cannot combine a {a}x{b} matrix with a {c}x{d} matrix"
  | .lengths left right => s!"vector lengths differ ({left} and {right})"
  | .index i n => s!"index {i} is out of range for length {n}"
  | .noEntry row col => s!"matrix index ({row}, {col}) out of bounds"
  | .zeroNorm => "vector has zero norm"
  | .notHermitian => "matrix is not hermitian"
  | .noEigenSolution => "eigen-decomposition is only supported for 2x2 or diagonal matrices"

end Ketscript
