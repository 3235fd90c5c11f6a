import Ketscript.Linear.Matrix
import Ketscript.Proofs.Linear.Product

/-! The storage of matrices. The operations on matrices build their results from formulas. The same operations are
    loops over arrays that hold the entries row by row, and there a place that is read or written must be in the array:
    otherwise nothing comes out. On the storage of matrices the loops always come to their end, and what they leave is
    the storage of the matrix that the formulas give. -/

namespace Ketscript

/-! ### Loops -/

/-- Runs the body of a loop for the numbers below a bound, from zero on. -/
def loop? {α : Type} (body : Nat → α → Option α) : (bound : Nat) → α → Option α
  | 0, a => some a
  | k + 1, a => loop? body k a >>= body k

/-- A loop runs through a sequence of states if its body takes each of them to the next one. -/
theorem loop?_eq_some {α : Type} {body : Nat → α → Option α} (state : Nat → α) {n : Nat}
    (h : ∀ k < n, body k (state k) = some (state (k + 1))) : loop? body n (state 0) = some (state n) := by
  induction n with
  | zero => rfl
  | succ n ih =>
    rw [loop?, ih fun k hk => h k (Nat.lt_succ_of_lt hk)]
    exact h n (Nat.lt_succ_self n)

/-- Writes an entry at a place, which must be in the array. -/
def write? {K : Type} (data : Array K) (place : Nat) (x : K) : Option (Array K) :=
  if place < data.size then some (data.setIfInBounds place x) else none

/-- The part of an array between two places, which must be in it. -/
def slice? {K : Type} (data : Array K) (start stop : Nat) : Option (Array K) :=
  if start ≤ stop ∧ stop ≤ data.size then some (data.extract start stop) else none

/-! ### Grids -/

/-- The entries of a formula for rows and columns, row by row. -/
def grid {K : Type} (rows cols : Nat) (f : Nat → Nat → K) : Array K :=
  Array.ofFn fun i : Fin (rows * cols) => f (i / cols) (i % cols)

section Grid
variable {K L : Type} {rows cols r c : Nat} {f g : Nat → Nat → K}

@[simp] theorem size_grid : (grid rows cols f).size = rows * cols := Array.size_ofFn

theorem place_eq_iff {place : Nat} (hc : c < cols) :
    place = r * cols + c ↔ place / cols = r ∧ place % cols = c := by
  constructor
  · rintro rfl
    exact ⟨Matrix.place_div hc, Matrix.place_mod hc⟩
  · rintro ⟨rfl, rfl⟩
    rw [Nat.mul_comm, Nat.div_add_mod]

theorem place_bounds {place : Nat} (h : place < rows * cols) : place / cols < rows ∧ place % cols < cols := by
  have hcols : 0 < cols := Nat.pos_of_ne_zero fun h0 => by simp [h0] at h
  exact ⟨Nat.div_lt_of_lt_mul (Nat.mul_comm rows cols ▸ h), Nat.mod_lt _ hcols⟩

theorem getElem?_grid_eq (place : Nat) : (grid rows cols f)[place]? =
    if place < rows * cols then some (f (place / cols) (place % cols)) else none := by
  rw [grid, Array.getElem?_ofFn]
  split <;> rfl

theorem getElem?_grid (hr : r < rows) (hc : c < cols) : (grid rows cols f)[r * cols + c]? = some (f r c) := by
  rw [getElem?_grid_eq, if_pos (Matrix.place_lt hr hc), Matrix.place_div hc, Matrix.place_mod hc]

theorem grid_congr (h : ∀ r < rows, ∀ c < cols, f r c = g r c) : grid rows cols f = grid rows cols g := by
  refine congrArg Array.ofFn (funext fun i => ?_)
  obtain ⟨hr, hc⟩ := place_bounds i.isLt
  exact h _ hr _ hc

theorem write?_grid (hr : r < rows) (hc : c < cols) (x : K) : write? (grid rows cols f) (r * cols + c) x =
    some (grid rows cols fun r' c' => if r' = r ∧ c' = c then x else f r' c') := by
  have hplace : r * cols + c < rows * cols := Matrix.place_lt hr hc
  rw [write?, size_grid, if_pos hplace]
  refine congrArg some (Array.ext_getElem? fun place => ?_)
  rw [Array.getElem?_setIfInBounds, size_grid, getElem?_grid_eq, getElem?_grid_eq]
  by_cases h : r * cols + c = place
  · rw [if_pos h, if_pos hplace, if_pos (h ▸ hplace), if_pos ((place_eq_iff hc).mp h.symm)]
  · rw [if_neg h, if_neg fun hrc => h ((place_eq_iff hc).mpr hrc).symm]

theorem replicate_eq_grid (x : K) : Array.replicate (rows * cols) x = grid rows cols fun _ _ => x :=
  Array.ext_getElem? fun place => by rw [Array.getElem?_replicate, getElem?_grid_eq]

theorem grid_succ : grid (rows + 1) cols f = grid rows cols f ++ Array.ofFn fun c : Fin cols => f rows c := by
  refine Array.ext_getElem? fun place => ?_
  rw [Array.getElem?_append, size_grid, getElem?_grid_eq, getElem?_grid_eq, Array.getElem?_ofFn, Nat.succ_mul]
  by_cases h : place < rows * cols
  · rw [if_pos h, if_pos h, if_pos (Nat.lt_add_right cols h)]
  · obtain ⟨c, rfl⟩ := Nat.exists_eq_add_of_le (Nat.le_of_not_lt h)
    rw [if_neg h, Nat.add_sub_cancel_left]
    by_cases hc : c < cols
    · rw [if_pos (Nat.add_lt_add_left hc _), dif_pos hc, Matrix.place_div hc, Matrix.place_mod hc]
    · rw [if_neg fun hlt => hc (Nat.lt_of_add_lt_add_left hlt), dif_neg hc]

theorem flatten_ofFn :
    (Array.ofFn fun r : Fin rows => Array.ofFn fun c : Fin cols => f r c).flatten = grid rows cols f := by
  induction rows with
  | zero => simp [grid]
  | succ rows ih =>
    rw [Array.ofFn_succ, Array.flatten_push, grid_succ, ← ih]
    rfl

theorem slice?_grid (hr : r < rows) :
    slice? (grid rows cols f) (r * cols) ((r + 1) * cols) = some (Array.ofFn fun c : Fin cols => f r c) := by
  have hstop : (r + 1) * cols ≤ rows * cols := Nat.mul_le_mul_right cols hr
  rw [slice?, size_grid, if_pos ⟨Nat.mul_le_mul_right cols (Nat.le_succ r), hstop⟩]
  refine congrArg some (Array.ext_getElem? fun c => ?_)
  rw [Array.getElem?_extract, size_grid, Nat.min_eq_left hstop, Nat.succ_mul, Nat.add_sub_cancel_left,
    Array.getElem?_ofFn]
  by_cases hc : c < cols
  · rw [if_pos hc, dif_pos hc, getElem?_grid hr hc]
  · rw [if_neg hc, dif_neg hc]

/-- A loop that pushes the values of a formula. -/
theorem loop?_push {body : Nat → Array K → Option (Array K)} {n : Nat} (f : Nat → K) (before : Array K)
    (h : ∀ k < n, ∀ data, body k data = some (data.push (f k))) :
    loop? body n before = some (before ++ Array.ofFn fun k : Fin n => f k) := by
  induction n with
  | zero => simp [loop?]
  | succ n ih =>
    rw [loop?, ih fun k hk => h k (Nat.lt_succ_of_lt hk), Array.ofFn_succ, ← Array.push_append]
    exact h n (Nat.lt_succ_self n) _

/-- A loop that writes the entries of a formula fills the places that any of its steps writes. -/
theorem loop?_fill {body : Nat → Array K → Option (Array K)} {n : Nat} (written : Nat → Nat → Nat → Prop)
    [∀ k r c, Decidable (written k r c)] (filled : Nat → Nat → Prop) [∀ r c, Decidable (filled r c)]
    (hfilled : ∀ r < rows, ∀ c < cols, filled r c ↔ ∃ k < n, written k r c)
    (h : ∀ k < n, ∀ g, body k (grid rows cols g) =
      some (grid rows cols fun r c => if written k r c then f r c else g r c)) (g : Nat → Nat → K) :
    loop? body n (grid rows cols g) = some (grid rows cols fun r c => if filled r c then f r c else g r c) := by
  classical
  let state (k : Nat) : Array K := grid rows cols fun r c => if ∃ j < k, written j r c then f r c else g r c
  have hstart : state 0 = grid rows cols g := grid_congr fun r _ c _ => if_neg (by simp)
  have hend : state n = grid rows cols fun r c => if filled r c then f r c else g r c :=
    grid_congr fun r hr c hc => by simp only [hfilled r hr c hc]
  rw [← hstart, ← hend]
  refine loop?_eq_some state fun k hk => ?_
  rw [h k hk]
  refine congrArg some (grid_congr fun r _ c _ => ?_)
  by_cases hlast : written k r c
  · rw [if_pos hlast, if_pos ⟨k, Nat.lt_succ_self k, hlast⟩]
  · have hbefore : (∃ j < k + 1, written j r c) ↔ ∃ j < k, written j r c := by
      constructor
      · rintro ⟨j, hj, hwritten⟩
        refine ⟨j, Nat.lt_of_le_of_ne (Nat.le_of_lt_succ hj) ?_, hwritten⟩
        rintro rfl
        exact hlast hwritten
      · rintro ⟨j, hj, hwritten⟩
        exact ⟨j, Nat.lt_succ_of_lt hj, hwritten⟩
    rw [if_neg hlast]
    simp only [hbefore]

theorem map_grid (g : K → L) : (grid rows cols f).map g = grid rows cols fun r c => g (f r c) := by
  rw [grid, Array.map_ofFn]
  rfl

theorem zipWith_grid {M : Type} (op : K → L → M) {g : Nat → Nat → L} :
    Array.zipWith op (grid rows cols f) (grid rows cols g) = grid rows cols fun r c => op (f r c) (g r c) := by
  refine Array.ext_getElem? fun place => ?_
  rw [Array.getElem?_zipWith, getElem?_grid_eq, getElem?_grid_eq, getElem?_grid_eq]
  by_cases h : place < rows * cols
  · simp only [if_pos h]
  · simp only [if_neg h]

theorem zipWith_ofFn {M : Type} (op : K → L → M) {n : Nat} (f : Nat → K) {v : Array L} (h : n = v.size) (z : L) :
    Array.zipWith op (Array.ofFn fun c : Fin n => f c) v = Array.ofFn fun c : Fin n => op (f c) (v.getD c z) := by
  refine Array.ext_getElem? fun c => ?_
  rw [Array.getElem?_zipWith, Array.getElem?_ofFn, Array.getElem?_ofFn]
  by_cases hc : c < n
  · rw [dif_pos hc, dif_pos hc, Array.getD_eq_getD_getElem?, Array.getElem?_eq_getElem (h ▸ hc)]
    rfl
  · rw [dif_neg hc, dif_neg hc]

/-- The sum of the products with one row of the right matrix is added to a row of the result. -/
theorem loop?_add_row [Add K] [Mul K] {rows cols inner i k : Nat} (hi : i < rows) (hk : k < inner) (x : K)
    (b f : Nat → Nat → K) : loop? (fun j data => do
        let y ← (grid inner cols b)[k * cols + j]?
        let sum ← data[i * cols + j]?
        write? data (i * cols + j) (sum + x * y)) cols (grid rows cols f) =
      some (grid rows cols fun r c => if r = i then f r c + x * b k c else f r c) := by
  let state (j : Nat) : Array K := grid rows cols fun r c => if r = i ∧ c < j then f r c + x * b k c else f r c
  have hstart : state 0 = grid rows cols f := grid_congr fun r _ c _ => if_neg (by simp)
  have hend : state cols = grid rows cols fun r c => if r = i then f r c + x * b k c else f r c :=
    grid_congr fun r _ c hc => by simp only [hc, and_true]
  rw [← hstart, ← hend]
  refine loop?_eq_some state fun j hj => ?_
  have hsum : (state j)[i * cols + j]? = some (f i j) := by
    rw [getElem?_grid hi hj, if_neg fun h => Nat.lt_irrefl j h.2]
  simp only [getElem?_grid hk hj, hsum, Option.bind_eq_bind, Option.bind_some]
  rw [write?_grid hi hj]
  refine congrArg some (grid_congr fun r _ c _ => ?_)
  by_cases hr : r = i
  · -- In this row the entries before `j` are done, the one at `j` is just written, and the others are as before.
    subst hr
    rcases Nat.lt_trichotomy c j with hc | rfl | hc
    · simp [hc, Nat.ne_of_lt hc, Nat.lt_succ_of_lt hc]
    · simp
    · simp [Nat.ne_of_gt hc, Nat.not_lt_of_gt hc, Nat.not_lt_of_ge (Nat.succ_le_of_lt hc)]
  · simp [hr]

theorem foldl_ofFn {n : Nat} (op : K → K → K) (f : Nat → K) (init : K) :
    (Array.ofFn fun k : Fin n => f k).foldl op init = n.fold (fun k _ acc => op acc (f k)) init := by
  induction n with
  | zero => simp
  | succ n ih =>
    rw [Array.ofFn_succ, Array.foldl_push, Nat.fold_succ, ← ih]
    rfl

end Grid

/-! ### Operations on storage

Where an index is out of range there is no result, not even an error. -/

/-- The storage of a matrix: its entries row by row. Nothing is said about their number. -/
structure Storage (K : Type) where
  rows : Nat
  cols : Nat
  data : Array K

/-- The storage of a matrix. -/
def Matrix.storage {K : Type} (m : Matrix K) : Storage K := ⟨m.rows, m.cols, m.entries⟩

namespace Storage
variable {K R : Type}

def mismatch (a b : Storage K) : LinearError := .shapes a.rows a.cols b.rows b.cols

def ofRows? (rows : Array (Array K)) : Except LinearError (Storage K) :=
  let cols := (rows.getD 0 #[]).size
  if cols = 0 then .error .empty
  else if rows.any fun row => row.size != cols then .error .ragged
  else .ok ⟨rows.size, cols, rows.flatten⟩

def zeros? [Zero K] (rows cols : Nat) : Except LinearError (Storage K) :=
  if rows = 0 ∨ cols = 0 then .error .empty else .ok ⟨rows, cols, Array.replicate (rows * cols) 0⟩

/-- Ones are written on the diagonal of zeros. -/
def identity? [Zero K] [One K] (n : Nat) : Option (Except LinearError (Storage K)) :=
  match zeros? n n with
  | .error e => some (.error e)
  | .ok zeros => do
    let data ← loop? (fun i data => write? data (i * n + i) 1) n zeros.data
    return .ok { zeros with data := data }

def get? (s : Storage K) (r c : Nat) : Option (Except LinearError K) :=
  if r < s.rows ∧ c < s.cols then return .ok (← s.data[r * s.cols + c]?) else some (.error (.noEntry r c))

def row? (s : Storage K) (r : Nat) : Option (Except LinearError (Array K)) :=
  if r < s.rows then return .ok (← slice? s.data (r * s.cols) ((r + 1) * s.cols))
  else some (.error (.index r s.rows))

def column? (s : Storage K) (c : Nat) : Option (Except LinearError (Array K)) :=
  if c < s.cols then return .ok (← loop? (fun r column => return column.push (← s.data[r * s.cols + c]?)) s.rows #[])
  else some (.error (.index c s.cols))

/-- Every entry of `a` that is not zero adds its multiple of a row of `b` to a row of the result. -/
def mul? [Add K] [Mul K] [Zero K] [BEq K] (a b : Storage K) : Option (Except LinearError (Storage K)) :=
  if a.cols = b.rows then do
    let data ← loop? (fun i => loop? (fun k data => do
      let x ← a.data[i * a.cols + k]?
      if x == 0 then return data
      loop? (fun j data => do
        let y ← b.data[k * b.cols + j]?
        let sum ← data[i * b.cols + j]?
        write? data (i * b.cols + j) (sum + x * y)) b.cols data) a.cols) a.rows
      (Array.replicate (a.rows * b.cols) 0)
    return .ok ⟨a.rows, b.cols, data⟩
  else some (.error (a.mismatch b))

def add? [Add K] (a b : Storage K) : Except LinearError (Storage K) :=
  if a.rows = b.rows ∧ a.cols = b.cols then .ok ⟨a.rows, a.cols, Array.zipWith (· + ·) a.data b.data⟩
  else .error (a.mismatch b)

def scale [Mul K] (s : Storage K) (scalar : K) : Storage K := { s with data := s.data.map (· * scalar) }

/-- Every entry of `a` writes its multiple of `b` as a block of the result. -/
def tensor? [Mul K] [Zero K] (a b : Storage K) : Option (Storage K) := do
  let cols := a.cols * b.cols
  let data ← loop? (fun r₁ => loop? (fun c₁ data => do
    let x ← a.data[r₁ * a.cols + c₁]?
    loop? (fun r₂ => loop? (fun c₂ data => do
      let y ← b.data[r₂ * b.cols + c₂]?
      write? data ((r₁ * b.rows + r₂) * cols + (c₁ * b.cols + c₂)) (x * y)) b.cols) b.rows data) a.cols) a.rows
    (Array.replicate (a.rows * b.rows * cols) 0)
  return ⟨a.rows * b.rows, cols, data⟩

/-- The columns are read one after the other. -/
def transpose? (s : Storage K) : Option (Storage K) := do
  let data ← loop? (fun c => loop? (fun r data => return data.push (← s.data[r * s.cols + c]?)) s.rows) s.cols #[]
  return ⟨s.cols, s.rows, data⟩

def conjugate [RealScalar R] [Amplitude K R] (s : Storage K) : Storage K :=
  { s with data := s.data.map Amplitude.conj }

def adjoint? [RealScalar R] [Amplitude K R] (s : Storage K) : Option (Storage K) := return (← s.transpose?).conjugate

def act? [Add K] [Mul K] [Zero K] (s : Storage K) (v : Ket K) : Option (Except LinearError (Ket K)) :=
  if s.cols = v.size then do
    let w ← loop? (fun r w => do
      let row ← slice? s.data (r * s.cols) ((r + 1) * s.cols)
      return w.push ((Array.zipWith (· * ·) row v).foldl (· + ·) 0)) s.rows #[]
    return .ok w
  else some (.error (.shapes s.rows s.cols v.size 1))

end Storage

namespace Matrix
variable {K R : Type}

@[simp] theorem rows_storage (m : Matrix K) : m.storage.rows = m.rows := rfl

@[simp] theorem cols_storage (m : Matrix K) : m.storage.cols = m.cols := rfl

theorem storage_ofFn {rows cols : Nat} (hr : 0 < rows) (hc : 0 < cols) (f : Nat → Nat → K) :
    (ofFn rows cols hr hc f).storage = ⟨rows, cols, grid rows cols f⟩ := rfl

theorem size_pos_of_first {rows : Array (Array K)} (h : 0 < (rows.getD 0 #[]).size) : 0 < rows.size := by
  refine Nat.pos_of_ne_zero fun h0 => ?_
  rw [Array.eq_empty_of_size_eq_zero h0] at h
  cases h

theorem sizes_of_not_any {rows : Array (Array K)} {cols : Nat} (h : ¬(rows.any fun row => row.size != cols) = true) :
    ∀ row ∈ rows, row.size = cols := by
  intro row hrow
  by_contra hne
  exact h (Array.any_eq_true'.mpr ⟨row, hrow, bne_iff_ne.mpr hne⟩)

variable [Zero K]

theorem entries_eq_grid (m : Matrix K) : m.entries = grid m.rows m.cols m.entry := by
  refine Array.ext_getElem? fun place => ?_
  rw [getElem?_grid_eq]
  by_cases h : place < m.rows * m.cols
  · have hplace : place < m.entries.size := m.size_entries ▸ h
    rw [if_pos h, entry, Nat.mul_comm, Nat.div_add_mod, Array.getElem?_eq_getElem hplace,
      Array.getD_eq_getD_getElem?, Array.getElem?_eq_getElem hplace, Option.getD_some]
  · rw [if_neg h, Array.getElem?_eq_none (m.size_entries ▸ Nat.le_of_not_lt h)]

@[simp] theorem data_storage (m : Matrix K) : m.storage.data = grid m.rows m.cols m.entry := entries_eq_grid m

/-! ### Readers -/

theorem get?_storage (m : Matrix K) (r c : Nat) : m.storage.get? r c = some (m.get? r c) := by
  simp only [Storage.get?, get?, rows_storage, cols_storage, data_storage]
  split
  · rename_i h
    rw [getElem?_grid h.1 h.2]
    rfl
  · rfl

theorem row?_storage (m : Matrix K) (r : Nat) : m.storage.row? r = some (m.row? r) := by
  simp only [Storage.row?, row?, rows_storage, cols_storage, data_storage]
  split
  · rename_i h
    rw [slice?_grid h]
    rfl
  · rfl

theorem column?_storage (m : Matrix K) (c : Nat) : m.storage.column? c = some (m.column? c) := by
  simp only [Storage.column?, column?, rows_storage, cols_storage, data_storage]
  split
  · rename_i hc
    rw [loop?_push (fun r => m.entry r c) #[] fun r hr column => by rw [getElem?_grid hr hc]; rfl]
    simp
  · rfl

/-! ### Construction -/

/-- Rows of one length are those of a formula. -/
theorem eq_ofFn_of_sizes {rows : Array (Array K)} {cols : Nat} (h : ∀ row ∈ rows, row.size = cols) :
    rows = Array.ofFn fun r : Fin rows.size => Array.ofFn fun c : Fin cols => (rows.getD r #[]).getD c 0 := by
  refine Array.ext (Array.size_ofFn.symm) fun r hr _ => ?_
  have hrow : (rows.getD r #[]) = rows[r] := by
    rw [Array.getD_eq_getD_getElem?, Array.getElem?_eq_getElem hr, Option.getD_some]
  rw [Array.getElem_ofFn]
  refine Array.ext (by rw [Array.size_ofFn, h _ (Array.getElem_mem hr)]) fun c hc _ => ?_
  rw [Array.getElem_ofFn]
  simp only [hrow]
  rw [Array.getD_eq_getD_getElem?, Array.getElem?_eq_getElem hc, Option.getD_some]

/-- Rows make no matrix if the first of them is missing or empty or if one of them is of another length. -/
theorem ofRows?_cases (rows : Array (Array K)) :
    (¬0 < (rows.getD 0 #[]).size ∧ ofRows? rows = .error .empty) ∨
      (0 < (rows.getD 0 #[]).size ∧ (rows.any fun row => row.size != (rows.getD 0 #[]).size) = true ∧
        ofRows? rows = .error .ragged) ∨
      0 < (rows.getD 0 #[]).size ∧ ¬(rows.any fun row => row.size != (rows.getD 0 #[]).size) = true ∧ ∃ hr hc,
        ofRows? rows =
          .ok (ofFn rows.size (rows.getD 0 #[]).size hr hc fun r c => (rows.getD r #[]).getD c 0) := by
  simp only [ofRows?]
  by_cases hcols : 0 < (rows.getD 0 #[]).size
  · rw [dif_pos hcols]
    by_cases hragged : (rows.any fun row => row.size != (rows.getD 0 #[]).size) = true
    · rw [if_pos hragged]
      exact .inr (.inl ⟨hcols, hragged, rfl⟩)
    · rw [if_neg hragged, dif_pos (size_pos_of_first hcols)]
      exact .inr (.inr ⟨hcols, hragged, size_pos_of_first hcols, hcols, rfl⟩)
  · rw [dif_neg hcols]
    exact .inl ⟨hcols, rfl⟩

theorem ofRows?_storage (rows : Array (Array K)) : Storage.ofRows? rows = (ofRows? rows).map storage := by
  simp only [Storage.ofRows?]
  rcases ofRows?_cases rows with ⟨hcols, h⟩ | ⟨hcols, hragged, h⟩ | ⟨hcols, hragged, hr, hc, h⟩
  · rw [h, if_pos (Nat.eq_zero_of_not_pos hcols)]
    rfl
  · rw [h, if_neg (Nat.ne_of_gt hcols), if_pos hragged]
    rfl
  · rw [h, if_neg (Nat.ne_of_gt hcols), if_neg hragged, Except.map, storage_ofFn, ← flatten_ofFn,
      ← eq_ofFn_of_sizes (sizes_of_not_any hragged)]

theorem zeros?_storage (rows cols : Nat) :
    Storage.zeros? rows cols = (zeros? rows cols : Except LinearError (Matrix K)).map storage := by
  unfold Storage.zeros? zeros?
  by_cases h : 0 < rows ∧ 0 < cols
  · rw [if_neg (by omega), dif_pos h, replicate_eq_grid]
    rfl
  · rw [if_pos (by omega), dif_neg h]
    rfl

theorem identity?_storage [One K] (n : Nat) :
    Storage.identity? n = some ((identity? n : Except LinearError (Matrix K)).map storage) := by
  unfold Storage.identity? identity?
  rw [zeros?_storage, zeros?]
  by_cases h : 0 < n
  · have hloop : loop? (fun i data => write? data (i * n + i) 1) n (grid n n fun _ _ => (0 : K)) =
        some (grid n n fun r c => if r = c then 1 else 0) := by
      refine loop?_fill (fun i r c => r = i ∧ c = i) (· = ·) (fun r hr c _ => ?_) (fun i hi g => ?_) fun _ _ => 0
      · constructor
        · rintro rfl
          exact ⟨r, hr, rfl, rfl⟩
        · rintro ⟨i, -, rfl, rfl⟩
          rfl
      · exact write?_grid hi hi 1
    rw [dif_pos ⟨h, h⟩, dif_pos h]
    simp only [Except.map, storage_ofFn, hloop]
    rfl
  · rw [dif_neg fun h' => h h'.1, dif_neg h]
    rfl

/-! ### Algebra -/

theorem add?_storage [Add K] (a b : Matrix K) : a.storage.add? b.storage = (a.add? b).map storage := by
  unfold Storage.add? add?
  simp only [rows_storage, cols_storage, data_storage]
  by_cases h : a.rows = b.rows ∧ a.cols = b.cols
  · rw [if_pos h, if_pos h, ← h.1, ← h.2, zipWith_grid]
    rfl
  · rw [if_neg h, if_neg h]
    rfl

theorem scale_storage [Mul K] (m : Matrix K) (scalar : K) : m.storage.scale scalar = (m.scale scalar).storage := by
  rw [Storage.scale, data_storage, map_grid]
  rfl

theorem conjugate_storage [RealScalar R] [Amplitude K R] (m : Matrix K) :
    m.storage.conjugate = m.conjugate.storage := by
  rw [Storage.conjugate, data_storage, map_grid]
  rfl

theorem transpose?_storage (m : Matrix K) : m.storage.transpose? = some m.transpose.storage := by
  simp only [Storage.transpose?, rows_storage, cols_storage, data_storage]
  have hloop : loop? (fun c => loop? (fun r data => return data.push (← (grid m.rows m.cols m.entry)[r * m.cols + c]?))
      m.rows) m.cols #[] = some (grid m.cols m.rows fun r c => m.entry c r) := by
    have hstart : #[] = grid 0 m.rows fun r c => m.entry c r := by simp [grid]
    rw [hstart]
    refine loop?_eq_some (fun k => grid k m.rows fun r c => m.entry c r) fun c hc => ?_
    rw [grid_succ]
    refine loop?_push (fun r => m.entry r c) _ fun r hr data => ?_
    rw [getElem?_grid hr hc]
    rfl
  rw [hloop]
  rfl

/-- The sum of the first products for an entry of a product of matrices, where the zeros on the left are skipped. -/
def partialSum [Add K] [Mul K] [BEq K] (a b : Matrix K) (r c k : Nat) : K :=
  k.fold (fun k _ sum => if a.entry r k == 0 then sum else sum + a.entry r k * b.entry k c) 0

/-- The products with the entries of one row of the left matrix turn a row of zeros into a row of the product. -/
theorem loop?_mul_row [Add K] [Mul K] [BEq K] {a b : Matrix K} (h : a.cols = b.rows) {i : Nat} (hi : i < a.rows)
    (f : Nat → Nat → K) (hf : ∀ c, f i c = 0) : loop? (fun k data => do
        let x ← (grid a.rows a.cols a.entry)[i * a.cols + k]?
        if x == 0 then return data
        loop? (fun j data => do
          let y ← (grid b.rows b.cols b.entry)[k * b.cols + j]?
          let sum ← data[i * b.cols + j]?
          write? data (i * b.cols + j) (sum + x * y)) b.cols data) a.cols (grid a.rows b.cols f) =
      some (grid a.rows b.cols fun r c => if r = i then a.partialSum b r c a.cols else f r c) := by
  let state (k : Nat) : Array K := grid a.rows b.cols fun r c => if r = i then a.partialSum b r c k else f r c
  have hstart : state 0 = grid a.rows b.cols f := by
    refine grid_congr fun r _ c _ => ?_
    split
    · rename_i hr
      rw [hr, hf]
      rfl
    · rfl
  rw [← hstart]
  refine loop?_eq_some state fun k hk => ?_
  simp only [getElem?_grid hi hk]
  show (if (a.entry i k == 0) = true then some (state k) else loop? _ b.cols (state k)) = some (state (k + 1))
  split
  · rename_i hzero
    refine congrArg some (grid_congr fun r _ c _ => ?_)
    split
    · rename_i hr
      rw [partialSum, partialSum, Nat.fold_succ, hr, if_pos hzero]
    · rfl
  · rename_i hzero
    rw [loop?_add_row hi (h ▸ hk)]
    refine congrArg some (grid_congr fun r _ c _ => ?_)
    split
    · rename_i hr
      rw [partialSum, partialSum, Nat.fold_succ, hr, if_neg hzero]
    · rfl

theorem mul?_storage [Add K] [Mul K] [BEq K] (a b : Matrix K) :
    a.storage.mul? b.storage = some ((a.mul? b).map storage) := by
  simp only [Storage.mul?, mul?, rows_storage, cols_storage, data_storage]
  split
  · rename_i h
    let state (i : Nat) : Array K := grid a.rows b.cols fun r c => if r < i then a.partialSum b r c a.cols else 0
    have hstart : Array.replicate (a.rows * b.cols) 0 = state 0 := by
      rw [replicate_eq_grid]
      exact grid_congr fun r _ c _ => (if_neg (Nat.not_lt_zero r)).symm
    have hend : (a.mul b).storage = ⟨a.rows, b.cols, state a.rows⟩ := by
      rw [storage, entries_eq_grid]
      refine congrArg (Storage.mk a.rows b.cols) (grid_congr fun r hr c hc => ?_)
      have hr : r < a.rows := hr
      rw [entry_mul_eq_fold h hr hc, if_pos hr, partialSum]
    rw [hstart, loop?_eq_some state fun i hi => ?_]
    · rw [Except.map, hend]
      rfl
    · -- The rows before `i` are those of the product, and from `i` on there are still zeros.
      rw [loop?_mul_row h hi _ fun c => if_neg (Nat.lt_irrefl i)]
      refine congrArg some (grid_congr fun r _ c _ => ?_)
      rcases Nat.lt_trichotomy r i with hr | rfl | hr
      · rw [if_neg (Nat.ne_of_lt hr), if_pos hr, if_pos (Nat.lt_succ_of_lt hr)]
      · rw [if_pos rfl, if_pos (Nat.lt_succ_self r)]
      · rw [if_neg (Nat.ne_of_gt hr), if_neg (Nat.not_lt_of_gt hr), if_neg (Nat.not_lt_of_ge hr)]
  · rfl

/-- A block of a Kronecker product: the right matrix times one entry of the left one. -/
theorem loop?_block [Mul K] (a b : Matrix K) {r₁ c₁ : Nat} (hr₁ : r₁ < a.rows) (hc₁ : c₁ < a.cols)
    (g : Nat → Nat → K) : loop? (fun r₂ => loop? (fun c₂ data => do
          let y ← (grid b.rows b.cols b.entry)[r₂ * b.cols + c₂]?
          write? data ((r₁ * b.rows + r₂) * (a.cols * b.cols) + (c₁ * b.cols + c₂)) (a.entry r₁ c₁ * y))
          b.cols) b.rows (grid (a.rows * b.rows) (a.cols * b.cols) g) =
      some (grid (a.rows * b.rows) (a.cols * b.cols) fun r c => if r / b.rows = r₁ ∧ c / b.cols = c₁ then
        a.entry (r / b.rows) (c / b.cols) * b.entry (r % b.rows) (c % b.cols) else g r c) := by
  refine loop?_fill (fun r₂ r c => r = r₁ * b.rows + r₂ ∧ c / b.cols = c₁)
    (fun r c => r / b.rows = r₁ ∧ c / b.cols = c₁) (fun r _ c _ => ?_) (fun r₂ hr₂ g => ?_) g
  · constructor
    · rintro ⟨hr, hc⟩
      exact ⟨r % b.rows, Nat.mod_lt _ b.rows_pos, (place_eq_iff (Nat.mod_lt _ b.rows_pos)).mpr ⟨hr, rfl⟩, hc⟩
    · rintro ⟨r₂, hr₂, hr, hc⟩
      exact ⟨((place_eq_iff hr₂).mp hr).1, hc⟩
  · refine loop?_fill (fun c₂ r c => r = r₁ * b.rows + r₂ ∧ c = c₁ * b.cols + c₂)
      (fun r c => r = r₁ * b.rows + r₂ ∧ c / b.cols = c₁) (fun r _ c _ => ?_) (fun c₂ hc₂ g => ?_) g
    · constructor
      · rintro ⟨hr, hc⟩
        exact ⟨c % b.cols, Nat.mod_lt _ b.cols_pos, hr, (place_eq_iff (Nat.mod_lt _ b.cols_pos)).mpr ⟨hc, rfl⟩⟩
      · rintro ⟨c₂, hc₂, hr, hc⟩
        exact ⟨hr, ((place_eq_iff hc₂).mp hc).1⟩
    · rw [getElem?_grid hr₂ hc₂]
      show write? _ _ _ = _
      rw [write?_grid (place_lt hr₁ hr₂) (place_lt hc₁ hc₂)]
      refine congrArg some (grid_congr fun r _ c _ => ?_)
      split
      · rename_i h
        rw [h.1, h.2, place_div hr₂, place_mod hr₂, place_div hc₂, place_mod hc₂]
      · rfl

theorem tensor?_storage [Mul K] (a b : Matrix K) : a.storage.tensor? b.storage = some (a.tensor b).storage := by
  simp only [Storage.tensor?, rows_storage, cols_storage, data_storage]
  rw [replicate_eq_grid]
  have hend : (a.tensor b).storage = ⟨a.rows * b.rows, a.cols * b.cols, grid (a.rows * b.rows) (a.cols * b.cols)
      fun r c => if True then a.entry (r / b.rows) (c / b.cols) * b.entry (r % b.rows) (c % b.cols) else 0⟩ := by
    simp only [if_true]
    rfl
  rw [hend, loop?_fill (fun r₁ r _ => r / b.rows = r₁) (fun _ _ => True) (fun r hr c _ => ?_)
    (fun r₁ hr₁ g => ?_) fun _ _ => 0]
  · rfl
  · simpa using Nat.div_lt_of_lt_mul (Nat.mul_comm a.rows b.rows ▸ hr)
  · refine loop?_fill (fun c₁ r c => r / b.rows = r₁ ∧ c / b.cols = c₁) (fun r _ => r / b.rows = r₁)
      (fun r _ c hc => ?_) (fun c₁ hc₁ g => ?_) g
    · simpa using fun _ => Nat.div_lt_of_lt_mul (Nat.mul_comm a.cols b.cols ▸ hc)
    · rw [getElem?_grid hr₁ hc₁]
      exact loop?_block a b hr₁ hc₁ g

theorem adjoint?_storage [RealScalar R] [Amplitude K R] (m : Matrix K) :
    m.storage.adjoint? = some m.adjoint.storage := by
  rw [Storage.adjoint?, transpose?_storage]
  exact congrArg some (conjugate_storage m.transpose)

/-! ### Action on kets -/

theorem act?_storage [Add K] [Mul K] (m : Matrix K) (v : Ket K) : m.storage.act? v = some (m.act? v) := by
  simp only [Storage.act?, act?, rows_storage, cols_storage, data_storage]
  split
  · rename_i h
    rw [loop?_push (fun r => m.cols.fold (fun k _ sum => sum + m.entry r k * v.getD k 0) 0) #[] fun r hr w => ?_]
    · rw [Array.empty_append]
      rfl
    · rw [slice?_grid hr]
      simp only [Option.bind_eq_bind, Option.bind_some]
      rw [zipWith_ofFn (· * ·) (m.entry r) h 0, foldl_ofFn (f := fun k => m.entry r k * v.getD k 0)]
      rfl
  · rfl

end Matrix

end Ketscript
