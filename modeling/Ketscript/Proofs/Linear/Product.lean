import Ketscript.Linear.Matrix
import Mathlib.Algebra.BigOperators.Group.Finset.Sigma
import Mathlib.Algebra.BigOperators.Ring.Finset

/-! The product of matrices, their Kronecker product and their action on kets, as sums over a ring.

    The loops that run skip zero entries and add up in a fixed order; over a ring that makes no difference.
    From the sums follow the laws of the three operations: the product is associative and acts as its factors
    do one after the other, the identity is neutral, and Kronecker products multiply factor by factor. -/

namespace Ketscript
open Finset

/-! ### Sums -/

section Sums
variable {K : Type} [AddCommMonoid K]

theorem fold_add_eq_sum (f : Nat → K) (n : Nat) (a : K) :
    n.fold (fun k _ sum => sum + f k) a = a + ∑ k ∈ range n, f k := by
  induction n with
  | zero => simp
  | succ n ih => rw [Nat.fold_succ, ih, sum_range_succ, add_assoc]

/-- Adding up the values of a function at the entries of an array, from the left. -/
theorem foldl_add_eq_sum {α : Type} (f : α → K) (v : Array α) (z : α) (a : K) :
    v.foldl (fun sum x => sum + f x) a = a + ∑ i ∈ range v.size, f (v.getD i z) := by
  have loop (l : List α) (a : K) :
      l.foldl (fun sum x => sum + f x) a = a + ∑ i ∈ range l.length, f (l.getD i z) := by
    induction l generalizing a with
    | nil => simp
    | cons x l ih =>
      rw [List.foldl_cons, ih, List.length_cons, sum_range_succ', add_assoc, add_comm (f x)]
      rfl
  rw [← Array.foldl_toList, loop, Array.length_toList]
  refine congrArg (a + ·) (sum_congr rfl fun i _ => ?_)
  rw [List.getD_eq_getElem?_getD, Array.getElem?_toList, Array.getD_eq_getD_getElem?]

/-- A sum over the places of blocks is a sum over the blocks and over the places within one. -/
theorem sum_range_mul_eq (f : Nat → Nat → K) {n : Nat} (hn : 0 < n) (m : Nat) :
    ∑ k ∈ range (m * n), f (k / n) (k % n) = ∑ i ∈ range m, ∑ j ∈ range n, f i j := by
  induction m with
  | zero => simp
  | succ m ih =>
    rw [Nat.succ_mul, sum_range_add, ih, sum_range_succ]
    congr 1
    refine sum_congr rfl fun j hj => ?_
    have hj := mem_range.mp hj
    rw [Nat.mul_comm m n, Nat.mul_add_div hn, Nat.div_eq_of_lt hj, Nat.add_zero, Nat.mul_add_mod,
      Nat.mod_eq_of_lt hj]

end Sums

/-! ### Kets -/

namespace Ket
variable {K : Type}

theorem ext_getD [Zero K] {v w : Ket K} (hs : v.size = w.size) (h : ∀ i < v.size, v.getD i 0 = w.getD i 0) :
    v = w := by
  refine Array.ext hs fun i hi hi' => ?_
  have h := h i hi
  rwa [Array.getD_eq_getD_getElem?, Array.getD_eq_getD_getElem?, Array.getElem?_eq_getElem hi,
    Array.getElem?_eq_getElem hi'] at h

theorem size_basis [Zero K] [One K] (size index : Nat) : (basis size index : Ket K).size = size := by
  rw [basis, Array.size_setIfInBounds, Array.size_replicate]

theorem getD_basis [Zero K] [One K] {size index i : Nat} (hi : i < size) :
    (basis size index : Ket K).getD i 0 = if i = index then 1 else 0 := by
  rw [basis, Array.getD_eq_getD_getElem?, Array.getElem?_setIfInBounds, Array.getElem?_replicate,
    Array.size_replicate, if_pos hi]
  by_cases h : index = i
  · rw [if_pos h, if_pos (h ▸ hi), if_pos h.symm, Option.getD_some]
  · rw [if_neg h, if_neg (Ne.symm h), Option.getD_some]

end Ket

namespace Matrix
variable {K : Type}

/-! ### Entries -/

section Entries
variable [Zero K] {r c : Nat}

@[simp] theorem rows_mul [Add K] [Mul K] [BEq K] (a b : Matrix K) : (a.mul b).rows = a.rows := rfl

@[simp] theorem cols_mul [Add K] [Mul K] [BEq K] (a b : Matrix K) : (a.mul b).cols = b.cols := rfl

@[simp] theorem rows_tensor [Mul K] (a b : Matrix K) : (a.tensor b).rows = a.rows * b.rows := rfl

@[simp] theorem cols_tensor [Mul K] (a b : Matrix K) : (a.tensor b).cols = a.cols * b.cols := rfl

@[simp] theorem rows_identity [One K] {n : Nat} (h : 0 < n) : (identity n h : Matrix K).rows = n := rfl

@[simp] theorem cols_identity [One K] {n : Nat} (h : 0 < n) : (identity n h : Matrix K).cols = n := rfl

theorem entry_transpose (m : Matrix K) (hr : r < m.cols) (hc : c < m.rows) :
    m.transpose.entry r c = m.entry c r :=
  entry_ofFn m.cols_pos m.rows_pos _ hr hc

theorem entry_identity [One K] {n : Nat} (h : 0 < n) (hr : r < n) (hc : c < n) :
    (identity n h : Matrix K).entry r c = if r = c then 1 else 0 :=
  entry_ofFn h h _ hr hc

theorem entry_tensor [Mul K] (a b : Matrix K) (hr : r < a.rows * b.rows) (hc : c < a.cols * b.cols) :
    (a.tensor b).entry r c = a.entry (r / b.rows) (c / b.cols) * b.entry (r % b.rows) (c % b.cols) :=
  entry_ofFn _ _ _ hr hc

/-- A loop over the entries found not to be zero is a loop over all of them that passes over the zeros. -/
theorem foldl_nonzeros [BEq K] {β : Type} (m : Matrix K) (r : Nat) (g : β → Nat × K → β) (init : β) :
    (m.nonzeros r).foldl g init =
      m.cols.fold (fun c _ acc => if m.entry r c == 0 then acc else g acc (c, m.entry r c)) init := by
  have loop (f : Nat → K) (n : Nat) :
      (n.fold (fun c _ found => if f c == 0 then found else found.push (c, f c)) #[]).foldl g init =
        n.fold (fun c _ acc => if f c == 0 then acc else g acc (c, f c)) init := by
    induction n with
    | zero => rfl
    | succ n ih =>
      rw [Nat.fold_succ, Nat.fold_succ, ← ih]
      split
      · rfl
      · rw [Array.foldl_push]
  exact loop (m.entry r) m.cols

/-- The entries of a product are loops over the inner indices that pass over the zeros of the left matrix. -/
theorem entry_mul_eq_fold [Add K] [Mul K] [BEq K] {a b : Matrix K} (h : a.cols = b.rows) (hr : r < a.rows)
    (hc : c < b.cols) : (a.mul b).entry r c =
      a.cols.fold (fun k _ sum => if a.entry r k == 0 then sum else sum + a.entry r k * b.entry k c) 0 := by
  have hterms : (Array.ofFn fun r : Fin a.rows => a.nonzeros r).getD r #[] = a.nonzeros r := by
    rw [Array.getD_eq_getD_getElem?, Array.getElem?_ofFn, dif_pos hr, Option.getD_some]
  have hloop : (fun k (_ : k < a.cols) (sum : K) => if a.entry r k == 0 then sum
      else sum + a.entry r k * b.transpose.entry c k) =
      fun k _ sum => if a.entry r k == 0 then sum else sum + a.entry r k * b.entry k c := by
    funext k hk sum
    rw [entry_transpose b hc (h ▸ hk)]
  calc (a.mul b).entry r c
      = (a.nonzeros r).foldl (fun sum term => sum + term.2 * b.transpose.entry c term.1) 0 := by
        rw [mul, entry_ofFn _ _ _ hr hc, hterms]
    _ = a.cols.fold (fun k _ sum => if a.entry r k == 0 then sum else sum + a.entry r k * b.entry k c) 0 := by
        rw [foldl_nonzeros]
        exact congrArg (Nat.fold a.cols · 0) hloop

end Entries

section Product
variable [Semiring K] [BEq K] [LawfulBEq K] {a b c : Matrix K}

/-- The entries of a product are the sums over all inner indices: the skipped terms are zero. -/
theorem entry_mul (h : a.cols = b.rows) {r s : Nat} (hr : r < a.rows) (hs : s < b.cols) :
    (a.mul b).entry r s = ∑ k ∈ range a.cols, a.entry r k * b.entry k s := by
  have hloop : (fun k (_ : k < a.cols) (sum : K) => if a.entry r k == 0 then sum
      else sum + a.entry r k * b.entry k s) = fun k _ sum => sum + a.entry r k * b.entry k s := by
    funext k hk sum
    split
    · rename_i h0
      rw [eq_of_beq h0, zero_mul, add_zero]
    · rfl
  rw [entry_mul_eq_fold h hr hs, hloop, fold_add_eq_sum, zero_add]

protected theorem mul_assoc (hab : a.cols = b.rows) (hbc : b.cols = c.rows) :
    (a.mul b).mul c = a.mul (b.mul c) := by
  refine ext_entry rfl rfl fun r hr s hs => ?_
  rw [entry_mul (a := a.mul b) (b := c) hbc hr hs, entry_mul (a := a) (b := b.mul c) hab hr hs]
  calc ∑ l ∈ range (a.mul b).cols, (a.mul b).entry r l * c.entry l s
      = ∑ l ∈ range b.cols, ∑ k ∈ range a.cols, a.entry r k * b.entry k l * c.entry l s :=
        sum_congr rfl fun l hl => by rw [entry_mul hab hr (mem_range.mp hl), sum_mul]
    _ = ∑ k ∈ range a.cols, ∑ l ∈ range b.cols, a.entry r k * b.entry k l * c.entry l s := sum_comm
    _ = ∑ k ∈ range a.cols, a.entry r k * (b.mul c).entry k s :=
        sum_congr rfl fun k hk => by
          rw [entry_mul hbc (hab ▸ mem_range.mp hk) hs, mul_sum]
          exact sum_congr rfl fun l _ => mul_assoc _ _ _

theorem identity_mul {n : Nat} (h : 0 < n) (hn : a.rows = n) : (identity n h).mul a = a := by
  subst hn
  refine ext_entry rfl rfl fun r hr s hs => ?_
  rw [entry_mul (a := identity a.rows h) rfl hr hs, sum_eq_single r]
  · rw [entry_identity h hr hr, if_pos rfl, one_mul]
  · intro k hk hne
    rw [entry_identity h hr (mem_range.mp hk), if_neg (Ne.symm hne), zero_mul]
  · intro hr'
    exact absurd (mem_range.mpr hr) hr'

theorem mul_identity {n : Nat} (h : 0 < n) (hn : a.cols = n) : a.mul (identity n h) = a := by
  subst hn
  refine ext_entry rfl rfl fun r hr s hs => ?_
  rw [entry_mul (b := identity a.cols h) rfl hr hs, sum_eq_single s]
  · rw [entry_identity h hs hs, if_pos rfl, mul_one]
  · intro k hk hne
    rw [entry_identity h (mem_range.mp hk) hs, if_neg hne, mul_zero]
  · intro hs'
    exact absurd (mem_range.mpr hs) hs'

end Product

/-! ### Action on kets -/

section Action

theorem size_act [Add K] [Mul K] [Zero K] (m : Matrix K) (v : Ket K) : (m.act v).size = m.rows :=
  Array.size_ofFn

variable [Semiring K]

theorem getD_act (m : Matrix K) (v : Ket K) {r : Nat} (hr : r < m.rows) :
    (m.act v).getD r 0 = ∑ k ∈ range m.cols, m.entry r k * v.getD k 0 := by
  rw [act, Array.getD_eq_getD_getElem?, Array.getElem?_ofFn, dif_pos hr, Option.getD_some, fold_add_eq_sum,
    zero_add]

/-- A product acts as its factors do one after the other, the right one first. -/
theorem act_mul [BEq K] [LawfulBEq K] {a b : Matrix K} (h : a.cols = b.rows) (v : Ket K) :
    (a.mul b).act v = a.act (b.act v) := by
  refine Ket.ext_getD (by rw [size_act, size_act, rows_mul]) fun r hr => ?_
  rw [size_act] at hr
  rw [getD_act (a.mul b) v hr, getD_act a (b.act v) hr]
  calc ∑ l ∈ range b.cols, (a.mul b).entry r l * v.getD l 0
      = ∑ l ∈ range b.cols, ∑ k ∈ range a.cols, a.entry r k * b.entry k l * v.getD l 0 :=
        sum_congr rfl fun l hl => by rw [entry_mul h hr (mem_range.mp hl), sum_mul]
    _ = ∑ k ∈ range a.cols, ∑ l ∈ range b.cols, a.entry r k * b.entry k l * v.getD l 0 := sum_comm
    _ = ∑ k ∈ range a.cols, a.entry r k * (b.act v).getD k 0 :=
        sum_congr rfl fun k hk => by
          rw [getD_act b v (h ▸ mem_range.mp hk), mul_sum]
          exact sum_congr rfl fun l _ => mul_assoc _ _ _

theorem identity_act {n : Nat} (h : 0 < n) {v : Ket K} (hv : v.size = n) : (identity n h).act v = v := by
  refine Ket.ext_getD (by rw [size_act, rows_identity, hv]) fun r hr => ?_
  rw [size_act, rows_identity] at hr
  rw [getD_act _ v hr, cols_identity, sum_eq_single r]
  · rw [entry_identity h hr hr, if_pos rfl, one_mul]
  · intro k hk hne
    rw [entry_identity h hr (mem_range.mp hk), if_neg (Ne.symm hne), zero_mul]
  · intro hr'
    exact absurd (mem_range.mpr hr) hr'

end Action

/-! ### Kronecker products -/

section Tensor
variable [CommSemiring K]

/-- Kronecker products multiply factor by factor. -/
theorem tensor_mul_tensor [BEq K] [LawfulBEq K] {a b c d : Matrix K} (hac : a.cols = c.rows) (hbd : b.cols = d.rows) :
    (a.tensor b).mul (c.tensor d) = (a.mul c).tensor (b.mul d) := by
  refine ext_entry rfl rfl fun r hr s hs => ?_
  have hr' : r / b.rows < a.rows := Nat.div_lt_of_lt_mul (Nat.mul_comm a.rows b.rows ▸ hr)
  have hs' : s / d.cols < c.cols := Nat.div_lt_of_lt_mul (Nat.mul_comm c.cols d.cols ▸ hs)
  have hrm : r % b.rows < b.rows := Nat.mod_lt _ b.rows_pos
  have hsm : s % d.cols < d.cols := Nat.mod_lt _ d.cols_pos
  have hinner : (a.tensor b).cols = (c.tensor d).rows := by rw [cols_tensor, rows_tensor, hac, hbd]
  calc ((a.tensor b).mul (c.tensor d)).entry r s
      = ∑ k ∈ range (a.cols * b.cols), a.entry (r / b.rows) (k / b.cols) * b.entry (r % b.rows) (k % b.cols) *
          (c.entry (k / b.cols) (s / d.cols) * d.entry (k % b.cols) (s % d.cols)) := by
        rw [entry_mul hinner hr hs]
        refine sum_congr rfl fun k hk => ?_
        have hk := mem_range.mp hk
        rw [entry_tensor a b hr hk, entry_tensor c d (by rwa [← hac, ← hbd]) hs, hbd]
    _ = ∑ i ∈ range a.cols, ∑ j ∈ range b.cols, a.entry (r / b.rows) i * b.entry (r % b.rows) j *
          (c.entry i (s / d.cols) * d.entry j (s % d.cols)) :=
        sum_range_mul_eq (fun i j => a.entry (r / b.rows) i * b.entry (r % b.rows) j *
          (c.entry i (s / d.cols) * d.entry j (s % d.cols))) b.cols_pos a.cols
    _ = (a.mul c).entry (r / b.rows) (s / d.cols) * (b.mul d).entry (r % b.rows) (s % d.cols) := by
        rw [entry_mul hac hr' hs', entry_mul hbd hrm hsm, sum_mul_sum]
        exact sum_congr rfl fun i _ => sum_congr rfl fun j _ => mul_mul_mul_comm _ _ _ _
    _ = ((a.mul c).tensor (b.mul d)).entry r s := (entry_tensor (a.mul c) (b.mul d) hr hs).symm

theorem identity_tensor_identity {m n : Nat} (hm : 0 < m) (hn : 0 < n) :
    (identity m hm).tensor (identity n hn) = (identity (m * n) (Nat.mul_pos hm hn) : Matrix K) := by
  refine ext_entry rfl rfl fun r hr s hs => ?_
  have hr' : r / n < m := Nat.div_lt_of_lt_mul (Nat.mul_comm m n ▸ hr)
  have hs' : s / n < m := Nat.div_lt_of_lt_mul (Nat.mul_comm m n ▸ hs)
  rw [entry_tensor _ _ hr hs, entry_identity (Nat.mul_pos hm hn) hr hs, rows_identity, cols_identity,
    entry_identity hm hr' hs', entry_identity hn (Nat.mod_lt _ hn) (Nat.mod_lt _ hn)]
  by_cases h : r = s
  · rw [h, if_pos rfl, if_pos rfl, if_pos rfl, mul_one]
  · rw [if_neg h]
    by_cases hq : r / n = s / n
    · -- Places in one block differ in their remainder.
      have hm : r % n ≠ s % n := fun hm => h (by rw [← Nat.div_add_mod r n, hq, hm, Nat.div_add_mod])
      rw [if_neg hm, mul_zero]
    · rw [if_neg hq, zero_mul]

end Tensor

end Matrix
end Ketscript
