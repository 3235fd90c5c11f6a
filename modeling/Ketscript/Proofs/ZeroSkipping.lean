import Ketscript.Binary64.Scalar
import Ketscript.Proofs.Binary64.Arithmetic
import Ketscript.Proofs.Linear.Product

/-! The loop of the matrix product against that of the action on a ket. The product passes over the zeros of its left
    factor, the action adds up every term. They come to the same sums wherever the terms of the zeros are invisible:
    over a ring because they are zero, and in binary64 arithmetic because they are zeros of some sign, which change
    no sum but the negative zero, and a sum that starts from the positive zero never is that. -/

namespace Ketscript
open Finset

namespace Matrix
variable {K : Type} [Add K]

/-- Terms may be passed over if they change none of the sums that can come up. -/
theorem fold_skip_eq {P : K → Prop} (hadd : ∀ x y, P x → P (x + y)) {skip : Nat → Bool} {f : Nat → K} {n : Nat}
    (hskip : ∀ k < n, skip k → ∀ x, P x → x + f k = x) {init : K} (hinit : P init) :
    n.fold (fun k _ sum => if skip k then sum else sum + f k) init = n.fold (fun k _ sum => sum + f k) init ∧
      P (n.fold (fun k _ sum => sum + f k) init) := by
  induction n with
  | zero => exact ⟨rfl, hinit⟩
  | succ n ih =>
    obtain ⟨heq, hsum⟩ := ih fun k hk => hskip k (Nat.lt_succ_of_lt hk)
    rw [Nat.fold_succ, Nat.fold_succ, heq]
    refine ⟨?_, hadd _ _ hsum⟩
    split
    · rename_i hzero
      exact (hskip n (Nat.lt_succ_self n) hzero _ hsum).symm
    · rfl

/-- The columns of a product are those of its right factor with the left one acting on them, if the terms that the
    product passes over change none of its sums. -/
theorem column?_mul [Mul K] [Zero K] [BEq K] {a b : Matrix K} (h : a.cols = b.rows) {P : K → Prop} (hzero : P 0)
    (hadd : ∀ x y, P x → P (x + y)) {c : Nat} (hc : c < b.cols)
    (hskip : ∀ r, ∀ k < b.rows, a.entry r k == 0 → ∀ x, P x → x + a.entry r k * b.entry k c = x) :
    ∃ v, b.column? c = .ok v ∧ a.act? v = .ok (a.act v) ∧ (a.mul b).column? c = .ok (a.act v) := by
  let v : Ket K := Array.ofFn fun r : Fin b.rows => b.entry r c
  have hv (k : Nat) (hk : k < a.cols) : v.getD k 0 = b.entry k c := by
    rw [Array.getD_eq_getD_getElem?, Array.getElem?_ofFn, dif_pos (h ▸ hk), Option.getD_some]
  have hentry (r : Fin a.rows) : (a.mul b).entry r c =
      a.cols.fold (fun k _ sum => sum + a.entry r k * v.getD k 0) 0 := by
    have hloop : (fun k (_ : k < a.cols) (sum : K) => sum + a.entry r k * v.getD k 0) =
        fun k _ sum => sum + a.entry r k * b.entry k c := by
      funext k hk sum
      rw [hv k hk]
    rw [entry_mul_eq_fold h r.isLt hc, hloop]
    exact (fold_skip_eq hadd (fun k hk => hskip r k (h ▸ hk)) hzero).1
  refine ⟨v, if_pos hc, if_pos (h.trans Array.size_ofFn.symm), ?_⟩
  have hcolumn : (a.mul b).column? c = .ok (Array.ofFn fun r : Fin a.rows => (a.mul b).entry r c) := if_pos hc
  rw [hcolumn, funext hentry]
  rfl

end Matrix

/-! ### Binary64 arithmetic -/

namespace FloatComplex
open Binary64

/-- Neither part is infinite or not a number. -/
def IsFinite (z : FloatComplex) : Prop := z.re.isFinite ∧ z.im.isFinite

instance (z : FloatComplex) : Decidable z.IsFinite := inferInstanceAs (Decidable (_ ∧ _))

/-- Neither part is the negative zero. -/
def NotNegZero (z : FloatComplex) : Prop := form z.re ≠ .zero .negative ∧ form z.im ≠ .zero .negative

theorem notNegZero_zero : (0 : FloatComplex).NotNegZero := by
  have hzero : form 0.0 ≠ .zero .negative := by simp [form_zero]
  exact ⟨hzero, hzero⟩

theorem NotNegZero.add {x : FloatComplex} (hx : x.NotNegZero) (y : FloatComplex) : (x + y).NotNegZero :=
  ⟨form_add_ne_zero hx.1, form_add_ne_zero hx.2⟩

/-- A zero times finite parts is a zero of some sign in both parts, which is not seen in a sum. -/
theorem add_zero_mul {x y z : FloatComplex} (hx : x.NotNegZero) (hy : y == 0) (hz : z.IsFinite) : x + y * z = x := by
  obtain ⟨hre, him⟩ := hx
  obtain ⟨hzre, hzim⟩ := hz
  have hy : (y.re == 0.0 && y.im == 0.0) = true := hy
  rw [Bool.and_eq_true] at hy
  obtain ⟨hyre, hyim⟩ := hy
  have hproductre : y.re * z.re - y.im * z.im == 0.0 := sub_beq_zero (mul_beq_zero hyre hzre) (mul_beq_zero hyim hzim)
  have hproductim : y.re * z.im + y.im * z.re == 0.0 := add_beq_zero (mul_beq_zero hyre hzim) (mul_beq_zero hyim hzre)
  show FloatComplex.mk (x.re + (y.re * z.re - y.im * z.im)) (x.im + (y.re * z.im + y.im * z.re)) = x
  rw [add_of_beq_zero hre hproductre, add_of_beq_zero him hproductim]

end FloatComplex

namespace Matrix

/-- A product of binary64 matrices whose right factor is finite can be computed, and its columns are those of the right
    factor with the left one acting on them, in every bit, though the product passes over zeros. Over a ring the
    entries of both are the sums over the inner indices. -/
theorem column?_mul_eq_act :
    (∀ a b : Matrix FloatComplex, a.cols = b.rows → (∀ k < b.rows, ∀ c < b.cols, (b.entry k c).IsFinite) →
      ∃ p, a.mul? b = .ok p ∧ p.rows = a.rows ∧ p.cols = b.cols ∧ ∀ c < b.cols, ∃ v w,
        b.column? c = .ok v ∧ a.act? v = .ok w ∧ p.column? c = .ok w) ∧
    ∀ (K : Type) [Semiring K] [BEq K] [LawfulBEq K] (a b : Matrix K), a.cols = b.rows →
      ∃ p, a.mul? b = .ok p ∧ p.rows = a.rows ∧ p.cols = b.cols ∧ ∀ c < b.cols, ∃ v w,
        b.column? c = .ok v ∧ a.act? v = .ok w ∧ p.column? c = .ok w ∧ ∀ r < a.rows,
          p.get? r c = .ok (∑ k ∈ range a.cols, a.entry r k * b.entry k c) ∧
            w[r]? = some (∑ k ∈ range a.cols, a.entry r k * b.entry k c) := by
  refine ⟨fun a b h hfinite => ⟨a.mul b, if_pos h, rfl, rfl, fun c hc => ?_⟩,
    fun K _ _ _ a b h => ⟨a.mul b, if_pos h, rfl, rfl, fun c hc => ?_⟩⟩
  · obtain ⟨v, hv, hact, hcolumn⟩ := column?_mul h (P := FloatComplex.NotNegZero) FloatComplex.notNegZero_zero
      (fun x y hx => hx.add y) hc fun r k hk hzero x hx => FloatComplex.add_zero_mul hx hzero (hfinite k hk c hc)
    exact ⟨v, _, hv, hact, hcolumn⟩
  · obtain ⟨v, hv, hact, hcolumn⟩ := column?_mul h (P := fun _ => True) trivial (fun _ _ _ => trivial) hc
      fun r k _ hzero x _ => by rw [eq_of_beq hzero, zero_mul, add_zero]
    refine ⟨v, _, hv, hact, hcolumn, fun r hr => ?_⟩
    have hentry := entry_mul h hr hc
    have hplace : (a.mul b).get? r c = .ok ((a.mul b).entry r c) := if_pos ⟨hr, hc⟩
    have hentries : Array.ofFn (fun r : Fin a.rows => (a.mul b).entry r c) = a.act v :=
      Except.ok.inj ((if_pos hc).symm.trans hcolumn)
    refine ⟨hplace.trans (congrArg Except.ok hentry), ?_⟩
    rw [← hentries, Array.getElem?_ofFn, dif_pos hr, hentry]

theorem column?_mul_eq_act_infinite :
    let a : Matrix FloatComplex :=
      ⟨2, 2, #[⟨-0.0, 0.0⟩, ⟨0.0 / 0.0, 1.0⟩, ⟨1.0 / 0.0, 0.0⟩, ⟨0.0, -0.0⟩], Nat.two_pos, Nat.two_pos, rfl⟩
    let b : Matrix FloatComplex := ⟨2, 1, #[⟨-1.0, 2.0⟩, ⟨-0.0, -3.0⟩], Nat.two_pos, Nat.one_pos, rfl⟩
    let c : Matrix ℤ := ⟨1, 2, #[0, 2], Nat.one_pos, Nat.two_pos, rfl⟩
    let d : Matrix ℤ := ⟨2, 1, #[5, 7], Nat.two_pos, Nat.one_pos, rfl⟩
    (a.cols = b.rows ∧ ∀ k < b.rows, ∀ j < b.cols, (b.entry k j).IsFinite) ∧
      (∃ p v w, a.mul? b = .ok p ∧ b.column? 0 = .ok v ∧ a.act? v = .ok w ∧ p.column? 0 = .ok w) ∧
      ∃ p, c.mul? d = .ok p ∧ p.get? 0 0 = .ok 14 := by
  intro a b c d
  have hfinite : ∀ k < b.rows, ∀ j < b.cols, (b.entry k j).IsFinite := by decide +kernel
  obtain ⟨hfloat, hring⟩ := column?_mul_eq_act
  obtain ⟨p, hp, -, -, hcolumns⟩ := hfloat a b rfl hfinite
  obtain ⟨q, hq, -, -, hentries⟩ := hring ℤ c d rfl
  obtain ⟨v, w, hv, hw, hcolumn⟩ := hcolumns 0 Nat.one_pos
  obtain ⟨_, _, -, -, -, hsum⟩ := hentries 0 Nat.one_pos
  exact ⟨⟨rfl, hfinite⟩, ⟨p, v, w, hp, hv, hw, hcolumn⟩, q, hq, (hsum 0 Nat.one_pos).1⟩

end Matrix
end Ketscript
