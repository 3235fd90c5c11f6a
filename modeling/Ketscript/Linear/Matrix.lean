import Ketscript.Linear.Ket

/-! Dense matrices, stored row by row. Every operation builds its result from a formula for the entry at
    row `r` and column `c`. -/

namespace Ketscript

/-- A matrix with at least one row and one column. -/
structure Matrix (K : Type) where
  rows : Nat
  cols : Nat
  entries : Array K
  rows_pos : 0 < rows
  cols_pos : 0 < cols
  size_entries : entries.size = rows * cols

namespace Matrix
variable {K R : Type}

/-! ### Entries -/

/-- The entry at row `r` and column `c`, both in range. -/
@[inline] def entry [Zero K] (m : Matrix K) (r c : Nat) : K := m.entries.getD (r * m.cols + c) 0

/-- The matrix with entry `f r c` at row `r` and column `c`. -/
@[specialize] def ofFn (rows cols : Nat) (hr : 0 < rows) (hc : 0 < cols) (f : Nat → Nat → K) : Matrix K where
  rows := rows
  cols := cols
  entries := Array.ofFn fun i : Fin (rows * cols) => f (i / cols) (i % cols)
  rows_pos := hr
  cols_pos := hc
  size_entries := Array.size_ofFn

theorem place_lt {rows cols r c : Nat} (hr : r < rows) (hc : c < cols) : r * cols + c < rows * cols := by
  have h : (r + 1) * cols ≤ rows * cols := Nat.mul_le_mul_right cols hr
  rw [Nat.succ_mul] at h
  omega

theorem place_div {cols r c : Nat} (hc : c < cols) : (r * cols + c) / cols = r := by
  rw [Nat.mul_comm, Nat.mul_add_div (Nat.zero_lt_of_lt hc), Nat.div_eq_of_lt hc, Nat.add_zero]

theorem place_mod {cols r c : Nat} (hc : c < cols) : (r * cols + c) % cols = c := by
  rw [Nat.mul_comm, Nat.mul_add_mod, Nat.mod_eq_of_lt hc]

/-- The entries of a matrix are those of the formula that it was built from. -/
theorem entry_ofFn [Zero K] {rows cols r c : Nat} (hr : 0 < rows) (hc : 0 < cols) (f : Nat → Nat → K)
    (hrow : r < rows) (hcol : c < cols) : (ofFn rows cols hr hc f).entry r c = f r c := by
  simp only [entry, ofFn, Array.getD_eq_getD_getElem?]
  rw [Array.getElem?_ofFn, dif_pos (place_lt hrow hcol)]
  simp only [Option.getD_some, place_div hcol, place_mod hcol]

theorem ext_entry [Zero K] {a b : Matrix K} (hr : a.rows = b.rows) (hc : a.cols = b.cols)
    (h : ∀ r < a.rows, ∀ c < a.cols, a.entry r c = b.entry r c) : a = b := by
  have hs : a.entries = b.entries := by
    apply Array.ext
    · rw [a.size_entries, b.size_entries, hr, hc]
    · intro i hi hi'
      have hlt : i < a.rows * a.cols := a.size_entries ▸ hi
      have hrow : i / a.cols < a.rows := Nat.div_lt_of_lt_mul (by rwa [Nat.mul_comm])
      have h := h (i / a.cols) hrow (i % a.cols) (Nat.mod_lt _ a.cols_pos)
      simp only [entry, Array.getD_eq_getD_getElem?, ← hc] at h
      rw [Nat.mul_comm, Nat.div_add_mod] at h
      rw [Array.getElem?_eq_getElem hi, Array.getElem?_eq_getElem hi'] at h
      exact h
  cases a
  cases b
  cases hr
  cases hc
  cases hs
  rfl

instance [BEq K] : BEq (Matrix K) where
  beq a b := a.rows == b.rows && a.cols == b.cols && a.entries == b.entries

/-- The entry at a place, which must be in range. -/
def get? [Zero K] (m : Matrix K) (r c : Nat) : Except LinearError K :=
  if r < m.rows ∧ c < m.cols then .ok (m.entry r c) else .error (.noEntry r c)

def row? [Zero K] (m : Matrix K) (r : Nat) : Except LinearError (Array K) :=
  if r < m.rows then .ok (Array.ofFn fun c : Fin m.cols => m.entry r c) else .error (.index r m.rows)

def column? [Zero K] (m : Matrix K) (c : Nat) : Except LinearError (Array K) :=
  if c < m.cols then .ok (Array.ofFn fun r : Fin m.rows => m.entry r c) else .error (.index c m.cols)

def IsSquare (m : Matrix K) : Prop := m.rows = m.cols

instance (m : Matrix K) : Decidable m.IsSquare := inferInstanceAs (Decidable (m.rows = m.cols))

def dimension? (m : Matrix K) : Except LinearError Nat :=
  if m.IsSquare then .ok m.rows else .error (.notSquare m.rows m.cols)

/-! ### Construction -/

/-- The matrix with given rows, which must be of one length and not empty. -/
def ofRows? [Zero K] (rows : Array (Array K)) : Except LinearError (Matrix K) :=
  let cols := (rows.getD 0 #[]).size
  if hc : 0 < cols then
    if rows.any fun row => row.size != cols then .error .ragged
    else if hr : 0 < rows.size then
      .ok (ofFn rows.size cols hr hc fun r c => (rows.getD r #[]).getD c 0)
    else .error .empty
  else .error .empty

def ofRealRows? [RealScalar R] [Amplitude K R] [Zero K] (rows : Array (Array R)) :
    Except LinearError (Matrix K) :=
  ofRows? (rows.map fun row => row.map Amplitude.ofReal)

def zeros? [Zero K] (rows cols : Nat) : Except LinearError (Matrix K) :=
  if h : 0 < rows ∧ 0 < cols then .ok (ofFn rows cols h.1 h.2 fun _ _ => 0) else .error .empty

/-- Ones on the diagonal and zeros elsewhere. -/
def identity [Zero K] [One K] (n : Nat) (h : 0 < n) : Matrix K :=
  ofFn n n h h fun r c => if r = c then 1 else 0

/-- The identity of a size, which must not be zero. -/
def identity? [Zero K] [One K] (n : Nat) : Except LinearError (Matrix K) :=
  if h : 0 < n then .ok (identity n h) else .error .empty

/-- A ket as a matrix of one column. -/
def ofKet? [Zero K] (v : Ket K) : Except LinearError (Matrix K) :=
  if h : 0 < v.size then .ok (ofFn v.size 1 h Nat.one_pos fun r _ => v.getD r 0) else .error .empty

/-! ### Algebra -/

def mismatch (a b : Matrix K) : LinearError := .shapes a.rows a.cols b.rows b.cols

def transpose [Zero K] (m : Matrix K) : Matrix K :=
  ofFn m.cols m.rows m.cols_pos m.rows_pos fun r c => m.entry c r

/-- The places and values of the entries of row `r` that are not zero, from left to right. -/
@[specialize] def nonzeros [Zero K] [BEq K] (m : Matrix K) (r : Nat) : Array (Nat × K) :=
  m.cols.fold (fun c _ found => let x := m.entry r c; if x == 0 then found else found.push (c, x)) #[]

/-- The product. The entry at `(r, c)` adds up `a r k * b k c` over the `k` at which `a r k` is not zero. -/
@[specialize] def mul [Add K] [Mul K] [Zero K] [BEq K] (a b : Matrix K) : Matrix K :=
  let terms := Array.ofFn fun r : Fin a.rows => a.nonzeros r
  -- The columns of `b` are laid out as rows, for the inner loop reads one of them from end to end.
  let columns := b.transpose
  ofFn a.rows b.cols a.rows_pos b.cols_pos fun r c =>
    (terms.getD r #[]).foldl (fun sum (k, x) => sum + x * columns.entry c k) 0

@[specialize] def mul? [Add K] [Mul K] [Zero K] [BEq K] (a b : Matrix K) : Except LinearError (Matrix K) :=
  if a.cols = b.rows then .ok (a.mul b) else .error (a.mismatch b)

def add? [Add K] [Zero K] (a b : Matrix K) : Except LinearError (Matrix K) :=
  if a.rows = b.rows ∧ a.cols = b.cols then
    .ok (ofFn a.rows a.cols a.rows_pos a.cols_pos fun r c => a.entry r c + b.entry r c)
  else .error (a.mismatch b)

def scale [Mul K] [Zero K] (m : Matrix K) (scalar : K) : Matrix K :=
  ofFn m.rows m.cols m.rows_pos m.cols_pos fun r c => m.entry r c * scalar

/-- The Kronecker product: a block `a r c * b` for every entry of `a`. -/
@[specialize] def tensor [Mul K] [Zero K] (a b : Matrix K) : Matrix K :=
  ofFn (a.rows * b.rows) (a.cols * b.cols) (Nat.mul_pos a.rows_pos b.rows_pos)
    (Nat.mul_pos a.cols_pos b.cols_pos) fun r c =>
      a.entry (r / b.rows) (c / b.cols) * b.entry (r % b.rows) (c % b.cols)

def conjugate [RealScalar R] [Amplitude K R] [Zero K] (m : Matrix K) : Matrix K :=
  ofFn m.rows m.cols m.rows_pos m.cols_pos fun r c => Amplitude.conj (m.entry r c)

/-- The conjugate transpose, the inverse of a unitary matrix. -/
def adjoint [RealScalar R] [Amplitude K R] [Zero K] (m : Matrix K) : Matrix K := m.transpose.conjugate

/-- The product with a ket: the sum of `m r k * v k` over all `k`, from the left. -/
@[specialize] def act [Add K] [Mul K] [Zero K] (m : Matrix K) (v : Ket K) : Ket K :=
  Array.ofFn fun r : Fin m.rows => m.cols.fold (fun k _ sum => sum + m.entry r k * v.getD k 0) 0

/-- The product with a ket of as many entries as the matrix has columns. -/
@[specialize] def act? [Add K] [Mul K] [Zero K] (m : Matrix K) (v : Ket K) :
    Except LinearError (Ket K) :=
  if m.cols = v.size then .ok (m.act v) else .error (.shapes m.rows m.cols v.size 1)

/-! ### Comparison -/

/-- Both parts deviate by at most the tolerance. -/
def near [RealScalar R] [Amplitude K R] (tolerance : R) (x y : K) : Bool :=
  RealScalar.abs (Amplitude.re x - Amplitude.re y) ≤ tolerance &&
    RealScalar.abs (Amplitude.im x - Amplitude.im y) ≤ tolerance

/-- The same shape, and entries that deviate by at most the tolerance. -/
def approxEq [RealScalar R] [Amplitude K R] (a b : Matrix K) (tolerance : R) : Bool :=
  a.rows == b.rows && a.cols == b.cols &&
    (Array.zipWith (near tolerance) a.entries b.entries).all id

/-- Square, and times its adjoint the identity up to the tolerance. -/
def isUnitary [RealScalar R] [Amplitude K R] [Add K] [Mul K] [Zero K] [One K] [BEq K] (m : Matrix K)
    (tolerance : R) : Bool :=
  decide m.IsSquare && (m.mul m.adjoint).approxEq (identity m.rows m.rows_pos) tolerance

/-- Square, and equal to its adjoint up to the tolerance. -/
def isHermitian [RealScalar R] [Amplitude K R] [Zero K] (m : Matrix K) (tolerance : R) : Bool :=
  decide m.IsSquare && m.approxEq m.adjoint tolerance

/-- Square, and with squared moduli up to the square of the tolerance outside the diagonal. -/
def isDiagonal [RealScalar R] [Amplitude K R] [Zero K] (m : Matrix K) : Bool :=
  decide m.IsSquare && m.rows.all fun r _ => m.cols.all fun c _ =>
    r == c || decide (Amplitude.normSq (m.entry r c) ≤ RealScalar.tolerance * RealScalar.tolerance)

end Matrix
end Ketscript
