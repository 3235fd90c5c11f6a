import Ketscript.Machine.Store

/-! Measurement: a basis state is drawn with the weight of its amplitude, which is its squared modulus. -/

namespace Ketscript
variable {K R : Type} [RealScalar R] [Amplitude K R]

namespace Ket

/-- The first index from `i` on at which the running sum of the weights passes `point`, entries of weight
    zero left out. `sum` is that of the weights before `i`. -/
@[specialize] def firstPast? (v : Ket K) (point : R) (i : Nat) (sum : R) : Option Nat :=
  if h : i < v.size then
    let weight := Amplitude.normSq v[i]
    -- A weight that is not a number equals nothing, so it is added, and no later sum passes the point.
    if weight == 0 then firstPast? v point (i + 1) sum
    else if point < sum + weight then some i
    else firstPast? v point (i + 1) (sum + weight)
  else none
termination_by v.size - i

/-- The last of the first `n` indices that has a positive weight, and zero if there is none. -/
def lastPositive (v : Ket K) : (n : Nat) → Nat
  | 0 => 0
  | n + 1 =>
    if 0 < Amplitude.normSq (v[n]?.getD (Amplitude.ofReal 0)) then n else lastPositive v n

/-- The index drawn at a point between zero and the sum of all weights. If rounding leaves the point above
    the running sum, it is the last index with a positive weight. -/
@[specialize] def indexAt (v : Ket K) (point : R) : Nat :=
  match firstPast? v point 0 0 with
  | some i => i
  | none => lastPositive v v.size

/-- The bits of an index, the most significant first. -/
def bitsOf (width index : Nat) : Bits := (List.range width).reverse.map index.testBit

/-- The outcome at a point `u` of the unit interval. -/
@[specialize] def outcomeAt (v : Ket K) (u : R) : Bits := bitsOf v.qubits (indexAt v (u * normSq v))

/-- The point of the unit interval that a random word stands for: its upper 53 bits after a binary point. That a
    generator of 64-bit words gives its points so is an assumption on the generator. -/
def unitPoint (word : UInt64) : R :=
  RealScalar.ofNat (word >>> 11).toNat / RealScalar.ofNat (1 <<< 53)

end Ket

/-- The next word of a stream of random words, which goes on to the one after it. The state is the number of words
    drawn so far: it is assumed of the generator that it draws one word for each point, and each word from the words
    before it only. -/
def nextWord (words : Nat → UInt64) : Operation Nat UInt64 :=
  modifyGet fun drawn => (words drawn, drawn + 1)

@[simp] theorem on_nextWord (words : Nat → UInt64) (drawn : Nat) :
    (nextWord words).on drawn = (.ok (words drawn), drawn + 1) := rfl

/-- Measures a register at the next random word. The register keeps its ket. -/
@[specialize] def Store.measure [Zero K] [One K] (s : Store K) (words : Nat → UInt64) (register : String) :
    Operation Nat Bits := do
  let v ← s.register? register
  .failIf (¬(0 : R) < Ket.normSq v) (.zeroNorm register)
  let word ← nextWord words
  return Ket.outcomeAt v (Ket.unitPoint word)

end Ketscript
