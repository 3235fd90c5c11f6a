import Ketscript.Linear.Eigen
import Ketscript.Binary64.Text

/-! Entropy of probability distributions, and of ensembles of single qubits. -/

namespace Ketscript

/-- Causes of failure of an entropy. -/
inductive EntropyError (R : Type) where
  | sum (total : R)
  | repeated (symbol : String)
  | notNormalized (symbol : String)
  | linear (cause : LinearError)
deriving Repr, DecidableEq

def EntropyError.message : EntropyError Float → String
  | .sum total => "probabilities sum to " ++ Binary64.positional total ++ ", expected 1"
  | .repeated symbol => s!"symbol `{symbol}` appears more than once"
  | .notNormalized symbol => s!"qubit for symbol `{symbol}` is not normalized"
  | .linear cause => cause.message

structure Outcome (R : Type) where
  symbol : String
  probability : R

/-- A qubit with amplitudes `zero` and `one`, sent with a probability under the name of a symbol. -/
structure Emission (K R : Type) where
  symbol : String
  zero : K
  one : K
  probability : R

/-- The first name that stands also further left. -/
def firstRepeated? : (seen names : List String) → Option String
  | _, [] => none
  | seen, name :: rest => if seen.contains name then some name else firstRepeated? (name :: seen) rest

variable {K R : Type} [RealScalar R] [Amplitude K R]

/-- Succeeds if no symbol is repeated and the probabilities add up to one. -/
def checkDistribution (pdf : List (Outcome R)) : Except (EntropyError R) Unit :=
  match firstRepeated? [] (pdf.map (·.symbol)) with
  | some symbol => .error (.repeated symbol)
  | none =>
    let total := (pdf.map (·.probability)).foldl (· + ·) 0
    if RealScalar.tolerance < RealScalar.abs (total - RealScalar.ofNat 1) then .error (.sum total) else .ok ()

/-- The Shannon entropy: the sum of `-p log₂ p` over the positive probabilities. -/
def shannonEntropy (pdf : List (Outcome R)) : Except (EntropyError R) R := do
  checkDistribution pdf
  let positive := (pdf.map (·.probability)).filter fun p => decide (0 < p)
  -- Unlike the check of the distribution this sum starts from the negative zero.
  return (positive.map fun p => -p * RealScalar.log2 p).foldl (· + ·) (-0)

def Emission.outcome (x : Emission K R) : Outcome R := ⟨x.symbol, x.probability⟩

/-- Succeeds if the probabilities are a distribution and every qubit has norm one. -/
def checkEnsemble (ensemble : List (Emission K R)) : Except (EntropyError R) Unit := do
  checkDistribution (ensemble.map Emission.outcome)
  let wrong (x : Emission K R) : Bool :=
    RealScalar.tolerance < RealScalar.abs (Ket.norm #[x.zero, x.one] - RealScalar.ofNat 1)
  match ensemble.find? wrong with
  | some x => .error (.notNormalized x.symbol)
  | none => .ok ()

variable [Add K] [Sub K] [Mul K] [Zero K] [One K] [BEq K]

/-- The projector on a qubit, times its probability. -/
def Emission.share? (x : Emission K R) : Except LinearError (Matrix K) := do
  let ket ← Matrix.ofKet? #[x.zero, x.one]
  return (← ket.mul? ket.adjoint).scale (Amplitude.ofReal x.probability)

/-- The density operator: the sum of the shares, added to zero from the left. -/
def densityOperator (ensemble : List (Emission K R)) : Except (EntropyError R) (Matrix K) := do
  checkEnsemble ensemble
  let sum : Except LinearError (Matrix K) := do
    ensemble.foldlM (fun sum x => do sum.add? (← x.share?)) (← Matrix.zeros? 2 2)
  sum.mapError .linear

/-- An eigenvalue read as a probability: its real part, and zero if that is within the tolerance. -/
def spectralProbability (x : K) : R :=
  if RealScalar.abs (Amplitude.re x) < RealScalar.tolerance then 0 else Amplitude.re x

/-- The von Neumann entropy: the Shannon entropy of the spectrum of the density operator. -/
def vonNeumannEntropy (ensemble : List (Emission K R)) : Except (EntropyError R) R := do
  let rho ← densityOperator ensemble
  let spectrum ← rho.eigenvalues?.mapError .linear
  shannonEntropy (spectrum.toList.zipIdx.map fun (x, i) => ⟨s!"λ{i}", spectralProbability x⟩)

end Ketscript
