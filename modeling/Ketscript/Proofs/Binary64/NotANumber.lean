import Ketscript.Proofs.Binary64.Underflow

/-! What is not a number, through arithmetic and comparisons. Sums, differences, products and quotients with it are no
    numbers either, nor are its absolute value and its root, whereas the sum of a number and a finite number is a number.
    Every comparison with it fails, so a bound that is tested by "not above" lets it pass, and one that is tested by "at
    most" does not. -/

namespace Ketscript.Binary64
open Float.Model (Format UnpackedFloat)
open Float.Model.UnpackedFloat

variable {x y : Float} {f g : UnpackedFloat}

/-! ### Comparisons -/

theorem compare_swap (f g : UnpackedFloat) :
    UnpackedFloat.compare g f = (UnpackedFloat.compare f g).map Ordering.swap := by
  have hexponent (e d : Int) : (compare e d).swap = compare d e := Std.OrientedCmp.eq_swap.symm
  have hmantissa (m n : Nat) : (compare m n).swap = compare n m := Std.OrientedCmp.eq_swap.symm
  rcases f with (_ | _) | _ | (_ | _) | ⟨_ | _, m, e, hm⟩ <;> rcases g with (_ | _) | _ | (_ | _) | ⟨_ | _, n, d, hn⟩ <;>
    first
    | rfl
    | simp only [UnpackedFloat.compare, Option.map_some, Ordering.swap_then, hexponent, hmantissa]

theorem compare_eq_none : UnpackedFloat.compare f g = none ↔ f = .notANumber ∨ g = .notANumber := by
  rcases f with (_ | _) | _ | (_ | _) | ⟨_ | _, m, e, hm⟩ <;> rcases g with (_ | _) | _ | (_ | _) | ⟨_ | _, n, d, hn⟩ <;>
    simp [UnpackedFloat.compare]

theorem le_iff : x ≤ y ↔ UnpackedFloat.compare (form x) (form y) = some .lt ∨
    UnpackedFloat.compare (form x) (form y) = some .eq := by
  show decide ((form x).le (form y)) = true ↔ _
  rw [UnpackedFloat.le]
  rcases UnpackedFloat.compare (form x) (form y) with _ | (_ | _ | _) <;> simp

/-- What is not below a number is at least that number, unless one of both is not a number. -/
theorem not_lt_iff : ¬x < y ↔ x.isNaN ∨ y.isNaN ∨ y ≤ x := by
  rw [lt_iff, le_iff, isNaN_iff, isNaN_iff, ← or_assoc, ← compare_eq_none, compare_swap (form x)]
  rcases UnpackedFloat.compare (form x) (form y) with _ | (_ | _ | _) <;> simp

theorem not_le_of_isNaN (h : x.isNaN ∨ y.isNaN) : ¬x ≤ y := by
  rw [isNaN_iff, isNaN_iff, ← compare_eq_none] at h
  rw [le_iff, h]
  simp

/-! ### Arithmetic -/

theorem isNaN_add_left (hx : x.isNaN) (y : Float) : (x + y).isNaN := by
  rw [isNaN_iff, form_add, isNaN_iff.mp hx]
  rfl

theorem isNaN_neg (hx : x.isNaN) : (-x).isNaN := by
  rw [isNaN_iff, form_neg, isNaN_iff.mp hx]
  rfl

theorem isNaN_sub (h : x.isNaN ∨ y.isNaN) : (x - y).isNaN := by
  rw [sub_eq_add_neg]
  rcases h with hx | hy
  · exact isNaN_add_left hx _
  · exact isNaN_add (isNaN_neg hy)

theorem isNaN_mul (h : x.isNaN ∨ y.isNaN) : (x * y).isNaN := by
  rw [isNaN_iff, form_mul]
  rcases h with hx | hy
  · rw [isNaN_iff.mp hx]
    rfl
  · rw [isNaN_iff.mp hy]
    cases form x <;> rfl

theorem isNaN_div_left (hx : x.isNaN) (y : Float) : (x / y).isNaN := by
  have hform : form (x / y) = form (ofForm (div .binary64 (form x) (form y))) := rfl
  have hdiv : div .binary64 .notANumber (form y) = .notANumber := by cases form y <;> rfl
  rw [isNaN_iff, hform, isNaN_iff.mp hx, hdiv, form_ofForm (f := .notANumber) trivial]
  rfl

theorem isNaN_abs_iff : x.abs.isNaN ↔ x.isNaN := by
  rw [isNaN_iff, isNaN_iff, form_abs]
  cases form x <;> simp [UnpackedFloat.abs]

theorem not_isNaN_of_isFinite (h : x.isFinite) : ¬x.isNaN := fun hnan => (isFinite_iff.mp h).2 (isNaN_iff.mp hnan)

theorem not_isNaN_add (hx : ¬x.isNaN) (hy : y.isFinite) : ¬(x + y).isNaN := by
  obtain ⟨hinfinity, hnan⟩ := isFinite_iff.mp hy
  rw [isNaN_iff] at hx ⊢
  rw [form_add, clip_eq_notANumber_iff]
  generalize form x = f at *
  generalize form y = g at *
  rcases f with s | _ | s | ⟨s, m, e, hm⟩ <;> rcases g with t | _ | t | ⟨t, n, d, hn⟩
  case finite.finite => exact normalize_ne_notANumber _ _
  case zero.zero =>
    rw [add]
    split <;> simp
  all_goals first | exact absurd rfl hx | exact absurd rfl hnan | exact absurd rfl (hinfinity _) | simp [add]

theorem isNaN_sqrt_iff (h : ¬x < 0.0) : x.sqrt.isNaN ↔ x.isNaN := by
  rw [neg_iff] at h
  rw [isNaN_iff, isNaN_iff, form_sqrt, clip_eq_notANumber_iff]
  rcases hform : form x with (_ | _) | _ | s | ⟨_ | _, m, e, hm⟩
  case infinity.negative | finite.negative => exact absurd (hform ▸ rfl) h
  case finite.positive => exact iff_of_false (roundWithAccuracy_ne_notANumber _ _ _ _) (by simp)
  all_goals simp [UnpackedFloat.sqrt]

/-- What one step of a loop brings about and no step undoes holds at the end. -/
theorem foldl_of_mem {α β : Type} {P : β → Prop} {f : β → α → β} {l : List α} {a : α} (ha : a ∈ l)
    (hreach : ∀ b, P (f b a)) (hkeep : ∀ b a, P b → P (f b a)) (b : β) : P (l.foldl f b) := by
  obtain ⟨before, after, rfl⟩ := List.append_of_mem ha
  rw [List.foldl_append, List.foldl_cons]
  exact List.foldlRecOn after f (hreach _) fun b hb a _ => hkeep b a hb

end Ketscript.Binary64
