import Ketscript.Linear.Validation
import Ketscript.Proofs.Linear.Exact

/-! Unitary matrices in exact arithmetic.

    A matrix is unitary if it is square and its adjoint is its inverse on both sides. Products, Kronecker
    products and adjoints of unitary matrices are unitary. A unitary matrix passes the check for unitarity at
    every tolerance, keeps the norm of a ket, and is undone by its adjoint. -/

namespace Ketscript.Matrix
open Finset

/-! ### The adjoint -/

section Adjoint
variable {K R : Type} [RealScalar R] [Amplitude K R] [Zero K]

@[simp] theorem rows_adjoint (m : Matrix K) : m.adjoint.rows = m.cols := rfl

@[simp] theorem cols_adjoint (m : Matrix K) : m.adjoint.cols = m.rows := rfl

theorem entry_adjoint_eq_conj (m : Matrix K) {r c : Nat} (hr : r < m.cols) (hc : c < m.rows) :
    m.adjoint.entry r c = Amplitude.conj (m.entry c r) := by
  have h : m.adjoint.entry r c = Amplitude.conj (m.transpose.entry r c) :=
    entry_ofFn m.cols_pos m.rows_pos _ hr hc
  rw [h, entry_transpose m hr hc]

/-- The adjoint is its own inverse wherever the conjugate is. -/
theorem adjoint_adjoint_of_conj (hconj : ∀ z : K, Amplitude.conj (Amplitude.conj z) = z) (m : Matrix K) :
    m.adjoint.adjoint = m :=
  ext_entry rfl rfl fun r hr c hc => by
    rw [entry_adjoint_eq_conj m.adjoint hr hc, entry_adjoint_eq_conj m hc hr, hconj]

end Adjoint

section Adjoint
variable {a b : Matrix ℂ}

theorem entry_adjoint (m : Matrix ℂ) {r c : Nat} (hr : r < m.cols) (hc : c < m.rows) :
    m.adjoint.entry r c = star (m.entry c r) := by
  rw [entry_adjoint_eq_conj m hr hc, Amplitude.conj_eq_star]

theorem adjoint_adjoint (m : Matrix ℂ) : m.adjoint.adjoint = m := adjoint_adjoint_of_conj star_star m

theorem adjoint_mul (h : a.cols = b.rows) : (a.mul b).adjoint = b.adjoint.mul a.adjoint := by
  refine ext_entry rfl rfl fun r hr c hc => ?_
  rw [entry_adjoint (a.mul b) hr hc, entry_mul h hc hr,
    entry_mul (a := b.adjoint) (b := a.adjoint) h.symm hr hc, star_sum, cols_adjoint, ← h]
  refine sum_congr rfl fun k hk => ?_
  have hk := mem_range.mp hk
  rw [star_mul, entry_adjoint b hr (h ▸ hk), entry_adjoint a hk hc]

theorem adjoint_tensor (a b : Matrix ℂ) : (a.tensor b).adjoint = a.adjoint.tensor b.adjoint := by
  refine ext_entry rfl rfl fun r hr c hc => ?_
  have hr' : r / b.cols < a.cols := Nat.div_lt_of_lt_mul (Nat.mul_comm a.cols b.cols ▸ hr)
  have hc' : c / b.rows < a.rows := Nat.div_lt_of_lt_mul (Nat.mul_comm a.rows b.rows ▸ hc)
  rw [entry_adjoint (a.tensor b) hr hc, entry_tensor a b hc hr, entry_tensor a.adjoint b.adjoint hr hc,
    rows_adjoint, cols_adjoint, entry_adjoint a hr' hc',
    entry_adjoint b (Nat.mod_lt _ b.cols_pos) (Nat.mod_lt _ b.rows_pos), star_mul']

/-- A matrix moves to the other side of an inner product as its adjoint. -/
theorem dot_act_left (m : Matrix ℂ) (v w : Ket ℂ) (hv : v.size = m.cols) :
    Ket.dot (m.act v) w = Ket.dot v (m.adjoint.act w) := by
  unfold Ket.dot
  rw [size_act, hv]
  calc ∑ r ∈ range m.rows, star ((m.act v).getD r 0) * w.getD r 0
      = ∑ r ∈ range m.rows, ∑ c ∈ range m.cols, star (v.getD c 0) * (star (m.entry r c) * w.getD r 0) :=
        sum_congr rfl fun r hr => by
          rw [getD_act m v (mem_range.mp hr), star_sum, sum_mul]
          refine sum_congr rfl fun c _ => ?_
          rw [star_mul, mul_assoc]
    _ = ∑ c ∈ range m.cols, ∑ r ∈ range m.rows, star (v.getD c 0) * (star (m.entry r c) * w.getD r 0) := sum_comm
    _ = ∑ c ∈ range m.cols, star (v.getD c 0) * (m.adjoint.act w).getD c 0 :=
        sum_congr rfl fun c hc => by
          have hc := mem_range.mp hc
          rw [getD_act m.adjoint w hc, mul_sum]
          exact sum_congr rfl fun r hr => by rw [entry_adjoint m hc (mem_range.mp hr)]

/-- A matrix of two rows and columns is looked at entry by entry. -/
theorem forall_lt_two {P : Nat → Nat → Prop} (h00 : P 0 0) (h01 : P 0 1) (h10 : P 1 0) (h11 : P 1 1) :
    ∀ r < 2, ∀ c < 2, P r c := by
  intro r hr c hc
  obtain rfl | rfl : r = 0 ∨ r = 1 := by omega
  · obtain rfl | rfl : c = 0 ∨ c = 1 := by omega
    · exact h00
    · exact h01
  · obtain rfl | rfl : c = 0 ∨ c = 1 := by omega
    · exact h10
    · exact h11

theorem adjoint_eq_of_entries (hsquare : a.IsSquare)
    (h : ∀ r < a.rows, ∀ c < a.rows, star (a.entry c r) = a.entry r c) : a.adjoint = a := by
  have hsquare : a.rows = a.cols := hsquare
  refine ext_entry hsquare.symm hsquare fun r hr c hc => ?_
  rw [entry_adjoint a hr hc]
  exact h r (hsquare ▸ hr) c hc

end Adjoint

/-! ### Closure -/

/-- A square matrix whose adjoint is its inverse on both sides. -/
structure IsUnitary (m : Matrix ℂ) : Prop where
  square : m.IsSquare
  mul_adjoint : m.mul m.adjoint = identity m.rows m.rows_pos
  adjoint_mul : m.adjoint.mul m = identity m.cols m.cols_pos

namespace IsUnitary
variable {a b m : Matrix ℂ}

theorem of_entries {n : Nat} (hrows : m.rows = n) (hcols : m.cols = n)
    (horthoRows : ∀ r < n, ∀ c < n,
      ∑ k ∈ range n, m.entry r k * star (m.entry c k) = if r = c then 1 else 0)
    (horthoCols : ∀ r < n, ∀ c < n,
      ∑ k ∈ range n, star (m.entry k r) * m.entry k c = if r = c then 1 else 0) : m.IsUnitary := by
  subst hrows
  refine ⟨hcols.symm, ext_entry rfl rfl fun r hr c hc => ?_, ext_entry rfl rfl fun r hr c hc => ?_⟩
  · rw [entry_mul (a := m) (b := m.adjoint) rfl hr hc, entry_identity m.rows_pos hr hc,
      ← horthoRows r hr c hc, hcols]
    exact sum_congr rfl fun k hk => by rw [entry_adjoint m (hcols ▸ mem_range.mp hk) hc]
  · rw [entry_mul (a := m.adjoint) (b := m) rfl hr hc, entry_identity m.cols_pos hr hc,
      ← horthoCols r (hcols ▸ hr) c (hcols ▸ hc)]
    exact sum_congr rfl fun k hk => by rw [entry_adjoint m hr (mem_range.mp hk)]

protected theorem identity {n : Nat} (h : 0 < n) : (identity n h : Matrix ℂ).IsUnitary := by
  have hadj : (Matrix.identity n h : Matrix ℂ).adjoint = Matrix.identity n h :=
    ext_entry rfl rfl fun r hr c hc => by
      rw [entry_adjoint _ hr hc, entry_identity h hc hr, entry_identity h hr hc, apply_ite star, star_one,
        star_zero]
      exact if_congr eq_comm rfl rfl
  exact ⟨rfl, by rw [hadj]; exact mul_identity h rfl, by rw [hadj]; exact mul_identity h rfl⟩

protected theorem adjoint (h : m.IsUnitary) : m.adjoint.IsUnitary where
  square := h.square.symm
  mul_adjoint := by rw [adjoint_adjoint]; exact h.adjoint_mul
  adjoint_mul := by rw [adjoint_adjoint]; exact h.mul_adjoint

protected theorem mul (ha : a.IsUnitary) (hb : b.IsUnitary) (h : a.cols = b.rows) : (a.mul b).IsUnitary where
  square := (ha.square.trans h).trans hb.square
  mul_adjoint := by
    calc (a.mul b).mul (a.mul b).adjoint
        = (a.mul b).mul (b.adjoint.mul a.adjoint) := by rw [Matrix.adjoint_mul h]
      _ = a.mul (b.mul (b.adjoint.mul a.adjoint)) := Matrix.mul_assoc h rfl
      _ = a.mul ((b.mul b.adjoint).mul a.adjoint) := by
        rw [Matrix.mul_assoc (b := b.adjoint) (c := a.adjoint) rfl h.symm]
      _ = identity a.rows a.rows_pos := by
        rw [hb.mul_adjoint, identity_mul b.rows_pos h, ha.mul_adjoint]
  adjoint_mul := by
    calc (a.mul b).adjoint.mul (a.mul b)
        = (b.adjoint.mul a.adjoint).mul (a.mul b) := by rw [Matrix.adjoint_mul h]
      _ = b.adjoint.mul (a.adjoint.mul (a.mul b)) := Matrix.mul_assoc h.symm rfl
      _ = b.adjoint.mul ((a.adjoint.mul a).mul b) := by rw [Matrix.mul_assoc (b := a) rfl h]
      _ = identity b.cols b.cols_pos := by
        rw [ha.adjoint_mul, identity_mul a.cols_pos h.symm, hb.adjoint_mul]

protected theorem tensor (ha : a.IsUnitary) (hb : b.IsUnitary) : (a.tensor b).IsUnitary where
  square := by
    show a.rows * b.rows = a.cols * b.cols
    rw [ha.square, hb.square]
  mul_adjoint := by
    rw [adjoint_tensor, tensor_mul_tensor rfl rfl, ha.mul_adjoint, hb.mul_adjoint, identity_tensor_identity]
    rfl
  adjoint_mul := by
    rw [adjoint_tensor, tensor_mul_tensor rfl rfl, ha.adjoint_mul, hb.adjoint_mul, identity_tensor_identity]
    rfl

theorem exists_identity (h : m.IsUnitary) :
    ∃ one, identity? m.rows = .ok one ∧ m.mul? m.adjoint = .ok one ∧ m.adjoint.mul? m = .ok one := by
  have hcols : (identity m.cols m.cols_pos : Matrix ℂ) = identity m.rows m.rows_pos := by
    congr 1
    exact h.square.symm
  refine ⟨identity m.rows m.rows_pos, dif_pos m.rows_pos, ?_, ?_⟩
  · rw [mul?, if_pos (rows_adjoint m).symm, h.mul_adjoint]
  · rw [mul?, if_pos (cols_adjoint m), h.adjoint_mul, hcols]

/-! ### The action of a unitary matrix -/

/-- The adjoint undoes a unitary matrix. -/
theorem adjoint_act_act (h : m.IsUnitary) {v : Ket ℂ} (hv : v.size = m.rows) :
    m.adjoint.act (m.act v) = v := by
  rw [← act_mul rfl, h.adjoint_mul, identity_act m.cols_pos (hv.trans h.square)]

/-- A unitary matrix keeps the norm of a ket. -/
theorem normSq_act (h : m.IsUnitary) {v : Ket ℂ} (hv : v.size = m.rows) :
    Ket.normSq (m.act v) = Ket.normSq v := by
  have hc : ((Ket.normSq (m.act v) : ℝ) : ℂ) = (Ket.normSq v : ℝ) := by
    rw [Ket.ofReal_normSq, Ket.ofReal_normSq, dot_act_left m v _ (hv.trans h.square), h.adjoint_act_act hv]
  exact Complex.ofReal_injective hc

end IsUnitary

/-! ### The check for unitarity -/

section Check
variable {K R : Type} [RealScalar R] [Amplitude K R] [Zero K] {tolerance : R}

/-- Matrices of one shape are compared entry by entry. -/
theorem approxEq_of_near {a b : Matrix K} (hr : a.rows = b.rows) (hc : a.cols = b.cols)
    (h : ∀ r < a.rows, ∀ c < a.cols, near tolerance (a.entry r c) (b.entry r c) = true) :
    a.approxEq b tolerance = true := by
  rw [approxEq, hr, hc, beq_self_eq_true, beq_self_eq_true, Bool.true_and, Bool.true_and, Array.all_eq_true]
  intro i hi
  rw [Array.size_zipWith, a.size_entries, b.size_entries, ← hr, ← hc, Nat.min_self] at hi
  have hnear := h (i / a.cols) (Nat.div_lt_of_lt_mul (by rwa [Nat.mul_comm])) (i % a.cols) (Nat.mod_lt _ a.cols_pos)
  have hplace : i / a.cols * a.cols + i % a.cols = i := by rw [Nat.mul_comm, Nat.div_add_mod]
  have ha : i < a.entries.size := a.size_entries ▸ hi
  have hb : i < b.entries.size := by rwa [b.size_entries, ← hr, ← hc]
  rw [entry, entry, ← hc, hplace, Array.getD_eq_getD_getElem?, Array.getD_eq_getD_getElem?,
    Array.getElem?_eq_getElem ha, Array.getElem?_eq_getElem hb, Option.getD_some, Option.getD_some] at hnear
  rw [Array.getElem_zipWith]
  exact hnear

theorem near_of_approxEq {a b : Matrix K} (h : a.approxEq b tolerance = true) {r c : Nat} (hr : r < a.rows)
    (hc : c < a.cols) : near tolerance (a.entry r c) (b.entry r c) = true := by
  rw [approxEq, Bool.and_eq_true, Bool.and_eq_true, beq_iff_eq, beq_iff_eq, Array.all_eq_true] at h
  obtain ⟨⟨hrows, hcols⟩, hall⟩ := h
  have ha : r * a.cols + c < a.entries.size := a.size_entries ▸ place_lt hr hc
  have hb : r * a.cols + c < b.entries.size := by rwa [b.size_entries, ← hrows, ← hcols, ← a.size_entries]
  have hnear := hall (r * a.cols + c) (by rw [Array.size_zipWith]; exact Nat.lt_min.mpr ⟨ha, hb⟩)
  rw [Array.getElem_zipWith] at hnear
  rw [entry, entry, ← hcols, Array.getD_eq_getD_getElem?, Array.getD_eq_getD_getElem?,
    Array.getElem?_eq_getElem ha, Array.getElem?_eq_getElem hb]
  exact hnear

/-- The check looks at the products of the rows with the conjugates of the rows. -/
theorem checkUnitary_of_near [Add K] [Mul K] [One K] [BEq K] {m : Matrix K} (hsquare : m.IsSquare)
    (h : ∀ r < m.rows, ∀ c < m.rows,
      near tolerance ((m.mul m.adjoint).entry r c) (if r = c then 1 else 0) = true) :
    m.checkUnitary tolerance = .ok () := by
  have hnear : (m.mul m.adjoint).approxEq (identity m.rows m.rows_pos) tolerance = true := by
    refine approxEq_of_near rfl rfl fun r hr c hc => ?_
    rw [entry_identity m.rows_pos hr hc]
    exact h r hr c hc
  rw [checkUnitary, isUnitary, hnear, decide_eq_true hsquare, Bool.and_self, if_pos rfl]

end Check

theorem approxEq_self (m : Matrix ℂ) {tolerance : ℝ} (ht : 0 ≤ tolerance) : m.approxEq m tolerance = true := by
  have hpart (x : ℝ) : RealScalar.abs (x - x) ≤ tolerance := by
    show |x - x| ≤ tolerance
    rwa [sub_self, abs_zero]
  have hnear (z : ℂ) : near tolerance z z = true :=
    Bool.and_eq_true_iff.mpr ⟨decide_eq_true (hpart z.re), decide_eq_true (hpart z.im)⟩
  simp [approxEq, Array.zipWith_self, hnear]

protected theorem IsUnitary.checkUnitary {m : Matrix ℂ} (h : m.IsUnitary) {tolerance : ℝ} (ht : 0 ≤ tolerance) :
    m.checkUnitary tolerance = .ok () := by
  have hcheck : m.isUnitary tolerance = true := by
    rw [isUnitary, h.mul_adjoint, approxEq_self _ ht, decide_eq_true h.square]
    rfl
  rw [Matrix.checkUnitary, if_pos hcheck]

end Ketscript.Matrix
