import Ketscript.Linear.Matrix

/-! Eigenvalues and eigenvectors of matrices that are two by two or diagonal. -/

namespace Ketscript.Matrix
variable {K R : Type} [RealScalar R] [Amplitude K R]
variable [Add K] [Sub K] [Mul K] [Zero K] [One K] [BEq K]

/-- The size of a matrix whose eigenvalues are known in closed form. -/
def eigenSize? (m : Matrix K) : Except LinearError Nat := do
  let size ← m.dimension?
  if size = 2 || m.isDiagonal then .ok size else .error .noEigenSolution

/-- The roots of `x² - trace x + determinant`, that with the root of the discriminant added first. -/
def characteristicRoots (root : K → K) (a b c d : K) : K × K :=
  let trace := a + d
  let determinant := a * d - b * c
  let r := root (trace * trace - Amplitude.mulReal determinant (RealScalar.ofNat 4))
  (Amplitude.divReal (trace + r) (RealScalar.ofNat 2), Amplitude.divReal (trace - r) (RealScalar.ofNat 2))

/-- The eigenvalues, given a square root: the diagonal in order, else the characteristic roots. -/
def eigenvaluesBy (root : K → K) (m : Matrix K) : Except LinearError (Array K) := do
  let size ← m.eigenSize?
  if m.isDiagonal then return Array.ofFn fun i : Fin size => m.entry i i
  let (x, y) := characteristicRoots root (m.entry 0 0) (m.entry 0 1) (m.entry 1 0) (m.entry 1 1)
  return #[x, y]

/-- A vector in the kernel of `m - x`, read off the row whose entry outside the diagonal is not zero. -/
def kernelVector (m : Matrix K) (x : K) : Ket K :=
  if RealScalar.tolerance < Amplitude.norm (m.entry 0 1) then #[m.entry 0 1, x - m.entry 0 0]
  else #[x - m.entry 1 1, m.entry 1 0]

/-- Unit eigenvectors in the order of the eigenvalues, given a square root. -/
def eigenvectorsBy (root : K → K) (m : Matrix K) : Except LinearError (Array (Ket K)) := do
  let size ← m.eigenSize?
  if m.isDiagonal then return Array.ofFn fun i : Fin size => Ket.basis size i
  (← m.eigenvaluesBy root).mapM fun x => Ket.normalize? (m.kernelVector x)

def eigenvalues? (m : Matrix K) : Except LinearError (Array K) := m.eigenvaluesBy Amplitude.sqrt

def eigenvectors? (m : Matrix K) : Except LinearError (Array (Ket K)) := m.eigenvectorsBy Amplitude.sqrt

end Ketscript.Matrix
