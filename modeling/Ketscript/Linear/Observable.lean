import Ketscript.Linear.Matrix

/-! Probabilities, transition amplitudes, and the statistics of observables. -/

namespace Ketscript
variable {K R : Type} [RealScalar R] [Amplitude K R]

namespace Ket

/-- The probability of finding a ket in a basis state. -/
def probability? (v : Ket K) (index : Nat) : Except LinearError R :=
  if h : index < v.size then
    let total := normSq v
    if total == 0 then .error .zeroNorm else .ok (Amplitude.normSq v[index] / total)
  else .error (.index index v.size)

/-- The amplitude of the transition from one ket to another, both taken at norm one. -/
def transition? [Add K] [Mul K] [Zero K] (source target : Ket K) : Except LinearError K := do
  let inner ← inner? target source
  let norms := norm source * norm target
  if norms == 0 then .error .zeroNorm else .ok (Amplitude.divReal inner norms)

end Ket

namespace Matrix
variable [Add K] [Mul K] [Neg K] [Zero K] [One K] [BEq K]

/-- Succeeds on a hermitian matrix with as many rows as the ket has entries. -/
def observes (m : Matrix K) (v : Ket K) : Except LinearError Unit :=
  if !m.isHermitian RealScalar.tolerance then .error .notHermitian
  else if m.rows ≠ v.size then .error (.lengths m.rows v.size)
  else .ok ()

/-- The expected value of an observable. -/
def mean? (m : Matrix K) (v : Ket K) : Except LinearError K := do
  m.observes v
  Ket.inner? v (← m.act? v)

/-- The expected square of an observable shifted by its mean. -/
def variance? (m : Matrix K) (v : Ket K) : Except LinearError K := do
  let mean ← m.mean? v
  let shift := (← identity? v.size).scale (-mean)
  let delta ← m.add? shift
  (← delta.mul? delta).mean? v

end Matrix
end Ketscript
