import Ketscript.Binary64.Basic

/-! The shortest decimal number that reads back as a binary64 number. The reals that round to `m * 2 ^ e`
    form an interval around it; of the decimal grids `10 ^ p` the coarsest with a point in it is taken, and
    on that grid the point nearest to the number, the upper one of two equally near. -/

namespace Ketscript.Binary64

/-- A positive decimal number `digits * 10 ^ exponent`. -/
structure Decimal where
  digits : Nat
  exponent : Int
deriving Repr, DecidableEq

namespace Shortest

/-- A number `m * 2 ^ e` with the interval of reals that round to it, in quarters of its last place. The
    ends belong to the interval if the mantissa is even. -/
structure Target where
  exponent : Int
  value : Nat
  low : Nat
  high : Nat
  closed : Bool

/-- The gap below a power of two is half the gap above it, except at the least exponent. -/
def Target.of (m : Nat) (e : Int) : Target where
  exponent := e - 2
  value := 4 * m
  low := if m = 1 <<< 52 ∧ leastExponent < e then 4 * m - 1 else 4 * m - 2
  high := 4 * m + 2
  closed := m % 2 = 0

/-- Scales that make `c * 10 ^ p` and `x * 2 ^ e` whole: `(10 ^ p * s, 2 ^ e * s)` for one `s`. -/
def scales (p e : Int) : Nat × Nat :=
  (Nat.pow 10 p.toNat <<< (-e).toNat, Nat.pow 10 (-p).toNat <<< e.toNat)

/-- The point of the grid `10 ^ p` inside the interval that is nearest to the number, if there is one. -/
def Target.onGrid? (t : Target) (p : Int) : Option Nat :=
  let (grid, place) := scales p t.exponent
  let inside (c : Nat) : Bool :=
    if t.closed then t.low * place ≤ c * grid && c * grid ≤ t.high * place
    else t.low * place < c * grid && c * grid < t.high * place
  let below := t.value * place / grid
  match inside below, inside (below + 1) with
  | true, true =>
    some (if 2 * (t.value * place - below * grid) < grid then below else below + 1)
  | true, false => some below
  | false, true => some (below + 1)
  | false, false => none

/-- The first grid with a point in the interval, from `p` downwards. -/
def Target.search (t : Target) : (n : Nat) → (p : Int) → Decimal
  | 0, p => ⟨(t.onGrid? p).getD 0, p⟩
  | n + 1, p => match t.onGrid? p with
    | some c => ⟨c, p⟩
    | none => t.search n (p - 1)

/-- An exponent at which `10 ^ p` is above `m * 2 ^ e`, and less than 16 above the least such. -/
def firstGrid (m : Nat) (e : Int) : Int :=
  let top := m.log2 + e + 1
  (if 0 ≤ top then top * 31 / 100 else top * 30 / 100) + 1

end Shortest

/-- The shortest decimal number that reads back as `m * 2 ^ e`, for a mantissa of at most 53 bits. -/
def shortest (m : Nat) (e : Int) : Decimal :=
  (Shortest.Target.of m e).search 40 (Shortest.firstGrid m e)

end Ketscript.Binary64
