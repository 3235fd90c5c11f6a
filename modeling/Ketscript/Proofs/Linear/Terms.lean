import Ketscript.Binary64.Scalar
import Ketscript.Proofs.Checks
import Ketscript.Proofs.Linear.Storage

/-! Terms over matrices. A term says how a matrix is built from lists of rows, identities and zeros. It is worked out on
    storage, where nothing is known beforehand about the number of entries, as it is on matrices: no index is ever out
    of range, and whether there is a result, and of which shape, depends on shapes alone. -/

namespace Ketscript

/-- How a matrix is built. -/
inductive MatrixTerm (K R : Type) where
  | ofRows (rows : Array (Array K))
  | ofRealRows (rows : Array (Array R))
  | identity (n : Nat)
  | zeros (rows cols : Nat)
  | mul (a b : MatrixTerm K R)
  | add (a b : MatrixTerm K R)
  | scale (a : MatrixTerm K R) (scalar : K)
  | tensor (a b : MatrixTerm K R)
  | transpose (a : MatrixTerm K R)
  | conjugate (a : MatrixTerm K R)
  | adjoint (a : MatrixTerm K R)

/-- The numbers of rows and of columns, if the rows are not empty and all of one length. -/
def rowsShape? {α : Type} (rows : Array (Array α)) : Option (Nat × Nat) :=
  let cols := (rows.getD 0 #[]).size
  if 0 < cols ∧ ¬rows.any (fun row => row.size != cols) then some (rows.size, cols) else none

theorem rowsShape?_map {α β : Type} (f : α → β) (rows : Array (Array α)) :
    rowsShape? (rows.map fun row => row.map f) = rowsShape? rows := by
  have hsize : ((rows.map fun row => row.map f).getD 0 #[]).size = (rows.getD 0 #[]).size := by
    simp only [Array.getD_eq_getD_getElem?, Array.getElem?_map]
    cases rows[0]? <;> simp
  have hany (cols : Nat) : ((rows.map fun row => row.map f).any fun row => row.size != cols) =
      rows.any fun row => row.size != cols := by
    rw [Array.any_map]
    simp only [Function.comp_def, Array.size_map]
  simp only [rowsShape?, hsize, hany]
  rw [Array.size_map]

theorem Matrix.ofRows?_shape {K : Type} [Zero K] (rows : Array (Array K)) :
    (ofRows? rows).toOption.map (fun m => (m.rows, m.cols)) = rowsShape? rows := by
  simp only [rowsShape?]
  rcases ofRows?_cases rows with ⟨hcols, h⟩ | ⟨hcols, hragged, h⟩ | ⟨hcols, hragged, hr, hc, h⟩
  · rw [h, if_neg fun hfit => hcols hfit.1]
    rfl
  · rw [h, if_neg fun hfit => hfit.2 hragged]
    rfl
  · rw [h, if_pos ⟨hcols, hragged⟩]
    rfl

namespace MatrixTerm
variable {K R : Type} [RealScalar R] [Amplitude K R] [Add K] [Mul K] [Zero K] [One K] [BEq K]

/-- The matrix of a term. -/
def eval? : MatrixTerm K R → Except LinearError (Matrix K)
  | ofRows rows => Matrix.ofRows? rows
  | ofRealRows rows => Matrix.ofRealRows? rows
  | identity n => Matrix.identity? n
  | zeros rows cols => Matrix.zeros? rows cols
  | mul a b => do (← a.eval?).mul? (← b.eval?)
  | add a b => do (← a.eval?).add? (← b.eval?)
  | scale a scalar => return (← a.eval?).scale scalar
  | tensor a b => return (← a.eval?).tensor (← b.eval?)
  | transpose a => return (← a.eval?).transpose
  | conjugate a => return (← a.eval?).conjugate
  | adjoint a => return (← a.eval?).adjoint

/-- The storage that is left when a term is worked out on storage. There is none if an index is out of range. -/
def run? : MatrixTerm K R → ExceptT LinearError Option (Storage K)
  | ofRows rows => .mk (some (Storage.ofRows? rows))
  | ofRealRows rows => .mk (some (Storage.ofRows? (rows.map fun row => row.map Amplitude.ofReal)))
  | identity n => .mk (Storage.identity? n)
  | zeros rows cols => .mk (some (Storage.zeros? rows cols))
  | mul a b => do .mk ((← a.run?).mul? (← b.run?))
  | add a b => do .mk (some ((← a.run?).add? (← b.run?)))
  | scale a scalar => return (← a.run?).scale scalar
  | tensor a b => do (← a.run?).tensor? (← b.run?)
  | transpose a => do (← a.run?).transpose?
  | conjugate a => return (← a.run?).conjugate
  | adjoint a => do (← a.run?).adjoint?

/-- The shape of the matrix of a term, if the shapes fit. -/
def shape? : MatrixTerm K R → Option (Nat × Nat)
  | ofRows rows => rowsShape? rows
  | ofRealRows rows => rowsShape? rows
  | identity n => if 0 < n then some (n, n) else none
  | zeros rows cols => if 0 < rows ∧ 0 < cols then some (rows, cols) else none
  | mul a b => do
    let (rows, inner) ← a.shape?
    let (inner', cols) ← b.shape?
    if inner = inner' then some (rows, cols) else none
  | add a b => do
    let (rows, cols) ← a.shape?
    let (rows', cols') ← b.shape?
    if rows = rows' ∧ cols = cols' then some (rows, cols) else none
  | scale a _ | conjugate a => a.shape?
  | tensor a b => do
    let (rows, cols) ← a.shape?
    let (rows', cols') ← b.shape?
    some (rows * rows', cols * cols')
  | transpose a | adjoint a => do
    let (rows, cols) ← a.shape?
    some (cols, rows)

/-- What is left on storage is the storage of the matrix of the term, or its error. -/
theorem run?_eq (t : MatrixTerm K R) : t.run? = .mk (some (t.eval?.map Matrix.storage)) := by
  induction t with
  | ofRows rows => exact congrArg some (Matrix.ofRows?_storage rows)
  | ofRealRows rows => exact congrArg some (Matrix.ofRows?_storage _)
  | identity n => exact Matrix.identity?_storage n
  | zeros rows cols => exact congrArg some (Matrix.zeros?_storage rows cols)
  | mul a b iha ihb =>
    rw [run?, eval?, iha, ihb]
    rcases a.eval? with e | a
    · rfl
    · rcases b.eval? with e | b
      · rfl
      · exact Matrix.mul?_storage a b
  | add a b iha ihb =>
    rw [run?, eval?, iha, ihb]
    rcases a.eval? with e | a
    · rfl
    · rcases b.eval? with e | b
      · rfl
      · exact congrArg some (Matrix.add?_storage a b)
  | scale a scalar iha =>
    rw [run?, eval?, iha]
    rcases a.eval? with e | a
    · rfl
    · exact congrArg (some ∘ Except.ok) (Matrix.scale_storage a scalar)
  | tensor a b iha ihb =>
    rw [run?, eval?, iha, ihb]
    rcases a.eval? with e | a
    · rfl
    · rcases b.eval? with e | b
      · rfl
      · exact congrArg (Option.map Except.ok) (Matrix.tensor?_storage a b)
  | transpose a iha =>
    rw [run?, eval?, iha]
    rcases a.eval? with e | a
    · rfl
    · exact congrArg (Option.map Except.ok) (Matrix.transpose?_storage a)
  | conjugate a iha =>
    rw [run?, eval?, iha]
    rcases a.eval? with e | a
    · rfl
    · exact congrArg (some ∘ Except.ok) (Matrix.conjugate_storage a)
  | adjoint a iha =>
    rw [run?, eval?, iha]
    rcases a.eval? with e | a
    · rfl
    · exact congrArg (Option.map Except.ok) (Matrix.adjoint?_storage a)

/-! ### Shapes -/

theorem shape?_eq (t : MatrixTerm K R) : t.shape? = t.eval?.toOption.map fun m => (m.rows, m.cols) := by
  induction t with
  | ofRows rows => exact (Matrix.ofRows?_shape rows).symm
  | ofRealRows rows =>
    rw [shape?, eval?, Matrix.ofRealRows?, Matrix.ofRows?_shape, rowsShape?_map]
  | identity n =>
    rw [shape?, eval?, Matrix.identity?]
    split <;> rfl
  | zeros rows cols =>
    rw [shape?, eval?, Matrix.zeros?]
    split <;> rfl
  | mul a b iha ihb =>
    rw [shape?, eval?, iha, ihb]
    rcases a.eval? with e | a
    · rfl
    · rcases b.eval? with e | b
      · rfl
      · show (if a.cols = b.rows then some (a.rows, b.cols) else none) = (a.mul? b).toOption.map _
        rw [Matrix.mul?]
        split <;> rfl
  | add a b iha ihb =>
    rw [shape?, eval?, iha, ihb]
    rcases a.eval? with e | a
    · rfl
    · rcases b.eval? with e | b
      · rfl
      · show (if a.rows = b.rows ∧ a.cols = b.cols then some (a.rows, a.cols) else none) =
          (a.add? b).toOption.map _
        rw [Matrix.add?]
        split <;> rfl
  | scale a scalar iha =>
    rw [shape?, eval?, iha]
    rcases a.eval? with e | a <;> rfl
  | conjugate a iha =>
    rw [shape?, eval?, iha]
    rcases a.eval? with e | a <;> rfl
  | tensor a b iha ihb =>
    rw [shape?, eval?, iha, ihb]
    rcases a.eval? with e | a
    · rfl
    · rcases b.eval? with e | b <;> rfl
  | transpose a iha =>
    rw [shape?, eval?, iha]
    rcases a.eval? with e | a <;> rfl
  | adjoint a iha =>
    rw [shape?, eval?, iha]
    rcases a.eval? with e | a <;> rfl

end MatrixTerm

/-! ### What holds of every matrix -/

namespace Matrix
variable {K : Type} [Zero K]

/-- What the readers of a matrix give at a place, which is the same for all of them, and what they refuse. -/
structure ReadersAgree (m : Matrix K) : Prop where
  entry : ∀ r < m.rows, ∀ c < m.cols, ∃ x row column, m.get? r c = .ok x ∧
    (m.row? r = .ok row ∧ row.size = m.cols ∧ row[c]? = some x) ∧
    (m.column? c = .ok column ∧ column.size = m.rows ∧ column[r]? = some x) ∧ m.transpose.get? c r = .ok x
  noEntry : ∀ r c, ¬(r < m.rows ∧ c < m.cols) → m.get? r c = .error (.noEntry r c)
  noRow : ∀ r, ¬r < m.rows → m.row? r = .error (.index r m.rows)
  noColumn : ∀ c, ¬c < m.cols → m.column? c = .error (.index c m.cols)

theorem readersAgree (m : Matrix K) : m.ReadersAgree where
  entry r hr c hc := by
    refine ⟨m.entry r c, _, _, if_pos ⟨hr, hc⟩, ⟨if_pos hr, Array.size_ofFn, ?_⟩,
      ⟨if_pos hc, Array.size_ofFn, ?_⟩, ?_⟩
    · rw [Array.getElem?_ofFn, dif_pos hc]
    · rw [Array.getElem?_ofFn, dif_pos hr]
    · rw [← entry_transpose m hc hr]
      exact if_pos ⟨hc, hr⟩
  noEntry r c h := if_neg h
  noRow r h := if_neg h
  noColumn c h := if_neg h

/-- The readers of a matrix give the rows from which it was made. -/
structure ReadsBack (m : Matrix K) (rows : Array (Array K)) : Prop where
  shape : m.rows = rows.size ∧ ∀ row ∈ rows, row.size = m.cols
  row : ∀ r row, rows[r]? = some row → m.row? r = .ok row
  get : ∀ r row, rows[r]? = some row → ∀ c x, row[c]? = some x → m.get? r c = .ok x
  column : ∀ c < m.cols, ∃ column, m.column? c = .ok column ∧ column.map some = rows.map (·[c]?)

theorem entries_of_ofRows? {rows : Array (Array K)} {m : Matrix K} (h : ofRows? rows = .ok m) :
    m.rows = rows.size ∧ (∀ row ∈ rows, row.size = m.cols) ∧
      ∀ r < m.rows, ∀ c < m.cols, m.entry r c = (rows.getD r #[]).getD c 0 := by
  rcases ofRows?_cases rows with ⟨-, hm⟩ | ⟨-, -, hm⟩ | ⟨-, hragged, hr, hc, hm⟩
  · cases hm.symm.trans h
  · cases hm.symm.trans h
  · obtain rfl := Except.ok.inj (hm.symm.trans h)
    exact ⟨rfl, sizes_of_not_any hragged, fun r hrow c hcol => entry_ofFn hr hc _ hrow hcol⟩

theorem readsBack_of_ofRows? {rows : Array (Array K)} {m : Matrix K} (h : ofRows? rows = .ok m) :
    m.ReadsBack rows := by
  obtain ⟨hrows, hsizes, hentries⟩ := entries_of_ofRows? h
  have hentry {r c : Nat} (hr : r < rows.size) (hc : c < m.cols) :
      ∃ hc' : c < rows[r].size, m.entry r c = rows[r][c] := by
    have hc' : c < rows[r].size := (hsizes _ (Array.getElem_mem hr)).symm ▸ hc
    refine ⟨hc', ?_⟩
    rw [hentries r (hrows ▸ hr) c hc]
    simp [Array.getD_eq_getD_getElem?, hr, hc']
  refine ⟨⟨hrows, hsizes⟩, fun r row hrow => ?_, fun r row hrow c x hx => ?_, fun c hc => ?_⟩
  · obtain ⟨hr, rfl⟩ := Array.getElem?_eq_some_iff.mp hrow
    refine (if_pos (hrows ▸ hr)).trans (congrArg Except.ok (Array.ext ?_ fun c hc _ => ?_))
    · rw [Array.size_ofFn, hsizes _ (Array.getElem_mem hr)]
    · obtain ⟨_, hx⟩ := hentry hr (Array.size_ofFn ▸ hc)
      rw [Array.getElem_ofFn, hx]
  · obtain ⟨hr, rfl⟩ := Array.getElem?_eq_some_iff.mp hrow
    obtain ⟨hc, rfl⟩ := Array.getElem?_eq_some_iff.mp hx
    have hc : c < m.cols := hsizes _ (Array.getElem_mem hr) ▸ hc
    obtain ⟨_, hx⟩ := hentry hr hc
    rw [get?, if_pos ⟨hrows ▸ hr, hc⟩, hx]
  · refine ⟨_, if_pos hc, Array.ext ?_ fun r hr _ => ?_⟩
    · rw [Array.size_map, Array.size_ofFn, Array.size_map, hrows]
    · have hr : r < rows.size := by simpa [hrows] using hr
      obtain ⟨hc', hx⟩ := hentry hr hc
      rw [Array.getElem_map, Array.getElem_ofFn, Array.getElem_map, hx, Array.getElem?_eq_getElem hc']

section Arithmetic
variable [Add K] [Mul K]

/-- On the storage of the matrix the readers are never out of range, and they give what those of the matrix do. -/
structure ReadsStorage (m : Matrix K) : Prop where
  get : ∀ r c, m.storage.get? r c = some (m.get? r c)
  row : ∀ r, m.storage.row? r = some (m.row? r)
  column : ∀ c, m.storage.column? c = some (m.column? c)
  act : ∀ v, m.storage.act? v = some (m.act? v)

/-- The matrix acts exactly on the kets with an entry for each column, and gives one with an entry for each row. -/
structure Acts (m : Matrix K) : Prop where
  act : ∀ v, (∃ w, m.act? v = .ok w) ↔ m.cols = v.size
  act_size : ∀ v w, m.act? v = .ok w → w.size = m.rows

/-- The matrices have a product and a sum exactly if their shapes fit, and of the shape that fits. -/
structure Combines [BEq K] (a b : Matrix K) : Prop where
  mul : (∃ p, a.mul? b = .ok p) ↔ a.cols = b.rows
  mul_shape : ∀ p, a.mul? b = .ok p → p.rows = a.rows ∧ p.cols = b.cols
  add : (∃ s, a.add? b = .ok s) ↔ a.rows = b.rows ∧ a.cols = b.cols
  add_shape : ∀ s, a.add? b = .ok s → (s.rows = a.rows ∧ s.cols = a.cols) ∧ s.rows = b.rows ∧ s.cols = b.cols

theorem readsStorage (m : Matrix K) : m.ReadsStorage :=
  ⟨get?_storage m, row?_storage m, column?_storage m, act?_storage m⟩

theorem acts (m : Matrix K) : m.Acts := by
  refine ⟨fun v => ?_, fun v w hw => ?_⟩
  · simp only [act?, ite_eq_ok, exists_and_left, exists_eq, and_true]
  · obtain ⟨-, rfl⟩ := ite_eq_ok.mp hw
    exact size_act m v

theorem combines [BEq K] (a b : Matrix K) : a.Combines b := by
  refine ⟨?_, fun p hp => ?_, ?_, fun s hs => ?_⟩
  · simp only [mul?, ite_eq_ok, exists_and_left, exists_eq, and_true]
  · obtain ⟨-, rfl⟩ := ite_eq_ok.mp hp
    exact ⟨rfl, rfl⟩
  · simp only [add?, ite_eq_ok, exists_and_left, exists_eq, and_true]
  · obtain ⟨h, rfl⟩ := ite_eq_ok.mp hs
    exact ⟨⟨rfl, rfl⟩, h⟩

end Arithmetic
end Matrix

namespace MatrixTerm
variable {K R : Type} [RealScalar R] [Amplitude K R] [Add K] [Mul K] [Zero K] [One K] [BEq K]

/-- A term is worked out on storage as it is on matrices, without an index that is out of range, and there is a result
    exactly if the shapes fit. It has at least one row and one column and an entry for each place. The readers agree
    and give back the rows of which a matrix is made, and the operations are defined on the shapes that fit. -/
theorem represented (t u : MatrixTerm K R) :
    (t.run? = .mk (some (t.eval?.map Matrix.storage)) ∧
        t.shape? = t.eval?.toOption.map fun m => (m.rows, m.cols)) ∧
      (∀ s, t.run? = .mk (some (.ok s)) → 1 ≤ s.rows ∧ 1 ≤ s.cols ∧ s.data.size = s.rows * s.cols) ∧
      (∀ m, t.eval? = .ok m →
        m.ReadsStorage ∧ m.ReadersAgree ∧ m.Acts ∧ ∀ n, u.eval? = .ok n → m.Combines n) ∧
      (∀ rows m, (ofRows rows : MatrixTerm K R).eval? = .ok m → m.ReadsBack rows) ∧
      ∀ rows m, (ofRealRows rows : MatrixTerm K R).eval? = .ok m →
        m.ReadsBack (rows.map fun row => row.map Amplitude.ofReal) := by
  refine ⟨⟨run?_eq t, shape?_eq t⟩, fun s hs => ?_, fun m _ => ?_, fun rows m hm => ?_, fun rows m hm => ?_⟩
  · rw [run?_eq t] at hs
    rcases ht : t.eval? with e | m
    · rw [ht] at hs
      cases hs
    · rw [ht] at hs
      cases hs
      exact ⟨m.rows_pos, m.cols_pos, m.size_entries⟩
  · exact ⟨m.readsStorage, m.readersAgree, m.acts, fun n _ => m.combines n⟩
  · exact Matrix.readsBack_of_ofRows? hm
  · exact Matrix.readsBack_of_ofRows? hm

theorem represented_product :
    let rows : Array (Array FloatComplex) := #[#[1, 0, 1], #[0, 1, 1]]
    let t : MatrixTerm FloatComplex Float := ofRows rows
    let product := mul t t.transpose
    product.shape? = some (2, 2) ∧
      (∃ m, t.eval? = .ok m ∧ m.ReadersAgree ∧ m.ReadsBack rows ∧ ¬m.rows = m.cols) ∧
      ∃ m s, product.eval? = .ok m ∧ product.run? = .mk (some (.ok s)) ∧ m.storage = s ∧ 1 ≤ s.rows ∧ 1 ≤ s.cols ∧
        s.data.size = s.rows * s.cols ∧ m.ReadsStorage ∧ m.Combines m := by
  intro rows t product
  have hshape : product.shape? = some (2, 2) := by decide +kernel
  have hexists {t : MatrixTerm FloatComplex Float} {rows cols : Nat} (h : t.shape? = some (rows, cols)) :
      ∃ m, t.eval? = .ok m ∧ m.rows = rows ∧ m.cols = cols := by
    rw [(represented t t).1.2] at h
    rcases ht : t.eval? with e | m
    · rw [ht] at h
      cases h
    · rw [ht] at h
      cases h
      exact ⟨m, rfl, rfl, rfl⟩
  obtain ⟨m, hm, hrows, hcols⟩ : ∃ m, t.eval? = .ok m ∧ m.rows = 2 ∧ m.cols = 3 := hexists (by decide +kernel)
  obtain ⟨p, hp, -⟩ : ∃ p, product.eval? = .ok p ∧ p.rows = 2 ∧ p.cols = 2 := hexists hshape
  obtain ⟨-, -, hreaders, hback, -⟩ := represented t t
  obtain ⟨⟨hrun, -⟩, hstorage, hreads, -⟩ := represented product product
  rw [hp] at hrun
  obtain ⟨hdata, -, -, hcombines⟩ := hreads p hp
  obtain ⟨hpos, hpos', hsize⟩ := hstorage p.storage hrun
  refine ⟨hshape, ⟨m, hm, (hreaders m hm).2.1, hback rows m hm, ?_⟩, p, p.storage, hp, hrun, rfl, hpos, hpos', hsize,
    hdata, hcombines p hp⟩
  rw [hrows, hcols]
  decide

end MatrixTerm
end Ketscript
