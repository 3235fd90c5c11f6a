import Ketscript.Proofs.Binary64.Rounding

/-! Arithmetic on binary64 numbers. A sum or a product of canonical forms is canonical, so that the form of a result
    is the one that was computed, made infinite if it is too large. What is said about zeros, sides of zero and
    comparisons holds for all numbers, infinities and what is not a number included. -/

namespace Ketscript.Binary64
open Float.Model (Format UnpackedFloat totalExponent)
open Float.Model.UnpackedFloat

variable {x y : Float} {f g : UnpackedFloat} {s t : Sign}

/-! ### Forms of results -/

theorem normalize_cases (m e : Int) (s : Sign) :
    (m < 0 ∧ UnpackedFloat.normalize .binary64 m e s = UnpackedFloat.round .binary64 .negative (-m).toNat e) ∨
      (m = 0 ∧ UnpackedFloat.normalize .binary64 m e s = .zero s) ∨
      (0 < m ∧ UnpackedFloat.normalize .binary64 m e s = UnpackedFloat.round .binary64 .positive m.toNat e) := by
  rw [UnpackedFloat.normalize]
  split
  · rename_i h
    exact .inl ⟨Int.compare_eq_lt.mp h, rfl⟩
  · rename_i h
    exact .inr (.inl ⟨Int.compare_eq_eq.mp h, rfl⟩)
  · rename_i h
    exact .inr (.inr ⟨Int.compare_eq_gt.mp h, rfl⟩)

theorem canonical_normalize (m e : Int) (s : Sign) : Canonical (UnpackedFloat.normalize .binary64 m e s) := by
  rcases normalize_cases m e s with ⟨hm, h⟩ | ⟨-, h⟩ | ⟨hm, h⟩ <;> rw [h]
  · exact canonical_round _ (by omega) e
  · trivial
  · exact canonical_round _ (by omega) e

theorem canonical_add (hf : Canonical f) (hg : Canonical g) : Canonical (add .binary64 f g) := by
  rcases f with s | _ | s | ⟨s, m, e, hm⟩ <;> rcases g with t | _ | t | ⟨t, n, d, hn⟩
  case finite.finite => exact canonical_normalize _ _ _
  case infinity.infinity | zero.zero =>
    rw [add]
    split <;> trivial
  all_goals first | exact hf | exact hg

theorem canonical_neg (hf : Canonical f) : Canonical (neg f) := by
  cases f <;> exact hf

theorem le_grid_mul {m n : Nat} {e d : Int} {hm : 0 < m} {hn : 0 < n} (hf : Canonical (.finite s m e hm))
    (hg : Canonical (.finite t n d hn)) : e + d ≤ grid (m * n) (e + d) := by
  obtain ⟨-, he, hmfull⟩ := hf
  obtain ⟨-, hd, hnfull⟩ := hg
  -- A full mantissa makes a product of at least as many bits, and two that are not full have the least exponent.
  have hlog (h : 2 ^ 52 ≤ m * n) : 52 ≤ (m * n).log2 := (Nat.le_log2 (Nat.ne_of_gt (Nat.mul_pos hm hn))).mpr h
  simp only [grid, leastExponent] at *
  rcases hmfull with hmfull | rfl
  · have := hlog (Nat.le_trans hmfull (Nat.le_mul_of_pos_right m hn))
    omega
  · rcases hnfull with hnfull | rfl
    · have := hlog (Nat.le_trans hnfull (Nat.le_mul_of_pos_left n hm))
      omega
    · omega

theorem canonical_mul (hf : Canonical f) (hg : Canonical g) : Canonical (mul .binary64 f g) := by
  rcases f with s | _ | s | ⟨s, m, e, hm⟩ <;> rcases g with t | _ | t | ⟨t, n, d, hn⟩
  case finite.finite => exact canonical_roundWithAccuracy _ (le_grid_mul hf hg) .exact
  all_goals trivial

theorem form_add (x y : Float) : form (x + y) = clip (add .binary64 (form x) (form y)) :=
  form_ofForm (canonical_add (canonical_form x) (canonical_form y))

theorem form_mul (x y : Float) : form (x * y) = clip (mul .binary64 (form x) (form y)) :=
  form_ofForm (canonical_mul (canonical_form x) (canonical_form y))

theorem form_neg (x : Float) : form (-x) = neg (form x) := by
  have hform : form (-x) = clip (neg (form x)) := form_ofForm (canonical_neg (canonical_form x))
  rw [hform]
  cases h : form x with
  | finite s m e hm => rw [neg, clip, if_neg (Int.not_lt.mpr (exponent_le h))]
  | _ => rfl

/-- Changing the sign twice gives the number back, a zero with its sign. -/
protected theorem neg_neg (x : Float) : - -x = x := by
  have hneg (f : UnpackedFloat) : neg (neg f) = f := by
    rcases f with (_ | _) | _ | (_ | _) | ⟨_ | _⟩ <;> rfl
  apply form_injective
  rw [form_neg, form_neg, hneg]

theorem sub_eq_add_neg (x y : Float) : x - y = x + -y := by
  have hsub (f g : UnpackedFloat) : sub .binary64 f g = add .binary64 f (neg g) := by
    rcases f with s | _ | s | ⟨s, m, e, hm⟩ <;> rcases g with t | _ | t | ⟨t, n, d, hn⟩ <;> try rfl
    cases t <;> simp only [sub, add, neg, Sign.apply, Int.sub_eq_add_neg, Int.neg_neg]
  show ofForm (sub .binary64 (form x) (form y)) = ofForm (add .binary64 (form x) (form (-y)))
  rw [form_neg, hsub]

/-! ### Zeros -/

theorem form_zero : form 0.0 = .zero .positive := rfl

theorem beq_zero_iff : x == 0.0 ↔ ∃ s, form x = .zero s := by
  show UnpackedFloat.compare (form x) (form 0.0) == some .eq ↔ _
  rw [form_zero]
  rcases form x with (_ | _) | _ | _ | ⟨_ | _⟩ <;> simp [UnpackedFloat.compare]

theorem isFinite_iff : x.isFinite ↔ (∀ s, form x ≠ .infinity s) ∧ form x ≠ .notANumber := by
  show (form x).isFinite ↔ _
  cases form x <;> simp [UnpackedFloat.isFinite]

theorem add_beq_zero (hx : x == 0.0) (hy : y == 0.0) : x + y == 0.0 := by
  obtain ⟨s, hx⟩ := beq_zero_iff.mp hx
  obtain ⟨t, hy⟩ := beq_zero_iff.mp hy
  rw [beq_zero_iff, form_add, hx, hy, add]
  split
  · exact ⟨s, rfl⟩
  · exact ⟨_, rfl⟩

theorem neg_beq_zero (hx : x == 0.0) : -x == 0.0 := by
  obtain ⟨s, hx⟩ := beq_zero_iff.mp hx
  rw [beq_zero_iff, form_neg, hx]
  exact ⟨-s, rfl⟩

theorem sub_beq_zero (hx : x == 0.0) (hy : y == 0.0) : x - y == 0.0 := by
  rw [sub_eq_add_neg]
  exact add_beq_zero hx (neg_beq_zero hy)

theorem mul_beq_zero (hx : x == 0.0) (hy : y.isFinite) : x * y == 0.0 := by
  obtain ⟨s, hx⟩ := beq_zero_iff.mp hx
  obtain ⟨hinfinity, hnan⟩ := isFinite_iff.mp hy
  rw [beq_zero_iff, form_mul, hx]
  cases hform : form y with
  | notANumber => exact absurd hform hnan
  | infinity t => exact absurd hform (hinfinity t)
  | zero t | finite t => exact ⟨s * t, rfl⟩

/-- Both zeros are neutral for every number but the negative zero. -/
theorem add_of_beq_zero (hx : form x ≠ .zero .negative) (hy : y == 0.0) : x + y = x := by
  obtain ⟨t, hy⟩ := beq_zero_iff.mp hy
  have hadd : add .binary64 (form x) (.zero t) = form x := by
    rcases hform : form x with s | _ | (_ | _) | _ <;> try rfl
    · exact absurd hform hx
    · cases t <;> rfl
  apply form_injective
  rw [form_add, hy, hadd, clip_form]

theorem normalize_ne_zero (m : Int) {e : Int} (he : leastExponent ≤ e) :
    UnpackedFloat.normalize .binary64 m e .positive ≠ .zero .negative := by
  rcases normalize_cases m e .positive with ⟨hm, h⟩ | ⟨-, h⟩ | ⟨hm, h⟩ <;> rw [h]
  · exact round_ne_zero _ _ (by omega) he
  · simp
  · exact round_ne_zero _ _ (by omega) he

/-- A sum that starts from anything but the negative zero does not come to it. -/
theorem form_add_ne_zero (hx : form x ≠ .zero .negative) : form (x + y) ≠ .zero .negative := by
  have hadd : add .binary64 (form x) (form y) ≠ .zero .negative := by
    have hcanonicalx := canonical_form x
    have hcanonicaly := canonical_form y
    generalize form x = f at *
    generalize form y = g at *
    rcases f with s | _ | s | ⟨s, m, e, hm⟩ <;> rcases g with t | _ | t | ⟨t, n, d, hn⟩
    case finite.finite =>
      obtain ⟨-, he, -⟩ := hcanonicalx
      obtain ⟨-, hd, -⟩ := hcanonicaly
      exact normalize_ne_zero _ (Int.le_min.mpr ⟨he, hd⟩)
    case infinity.infinity =>
      rw [add]
      split <;> simp
    case zero.zero =>
      -- Two zeros of one sign add up to a zero of that sign, two of different signs to the positive zero.
      rw [add]
      split
      · exact hx
      · simp
    all_goals simp [add]
  rw [form_add]
  generalize add .binary64 (form x) (form y) = f at hadd
  cases f with
  | finite t n d hn =>
    rw [clip]
    split <;> simp
  | _ => exact hadd

/-! ### Sides of zero -/

/-- The form of a number on one side of zero: above it for the sign plus. -/
def OnSide (s : Sign) : UnpackedFloat → Prop
  | .infinity t | .finite t .. => t = s
  | .zero _ | .notANumber => False

theorem lt_iff : x < y ↔ UnpackedFloat.compare (form x) (form y) = some .lt := by
  show decide ((form x).lt (form y)) = true ↔ _
  simp [UnpackedFloat.lt]

theorem pos_iff : 0.0 < x ↔ OnSide .positive (form x) := by
  rw [lt_iff, form_zero]
  rcases form x with (_ | _) | _ | _ | ⟨_ | _⟩ <;> simp [UnpackedFloat.compare, OnSide]

theorem not_pos_of_beq_zero (h : x == 0.0) : ¬0.0 < x := by
  obtain ⟨s, h⟩ := beq_zero_iff.mp h
  rw [pos_iff, h]
  exact id

theorem neg_iff : x < 0.0 ↔ OnSide .negative (form x) := by
  rw [lt_iff, form_zero]
  rcases form x with (_ | _) | _ | _ | ⟨_ | _⟩ <;> simp [UnpackedFloat.compare, OnSide]

theorem onSide_clip : OnSide s (clip f) ↔ OnSide s f := by
  cases f with
  | finite t m e hm =>
    rw [clip]
    split <;> rfl
  | _ => rfl

theorem onSide_roundWithAccuracy {m : Nat} {e : Int} {accuracy : Accuracy}
    (h : OnSide s (roundWithAccuracy .binary64 t m e accuracy)) : t = s := by
  have hrounds := rounds_roundWithAccuracy t m e accuracy
  generalize roundWithAccuracy .binary64 t m e accuracy = f at h hrounds
  cases hrounds with
  | zero => cases h
  | kept | carried => exact h

theorem onSide_normalize {m e : Int} (h : OnSide s (UnpackedFloat.normalize .binary64 m e t)) : 0 < s.apply m := by
  rcases normalize_cases m e t with ⟨hm, hround⟩ | ⟨-, hzero⟩ | ⟨hm, hround⟩
  · rw [hround, round_eq] at h
    obtain rfl := onSide_roundWithAccuracy h
    exact Int.neg_pos_of_neg hm
  · rw [hzero] at h
    cases h
  · rw [hround, round_eq] at h
    obtain rfl := onSide_roundWithAccuracy h
    exact hm

/-- A sum is on a side of zero only if one of its terms is. -/
theorem onSide_add (h : OnSide s (add .binary64 f g)) : OnSide s f ∨ OnSide s g := by
  rcases f with t | _ | t | ⟨t, m, e, hm⟩ <;> rcases g with u | _ | u | ⟨u, n, d, hn⟩
  case finite.finite =>
    obtain ⟨k, l, hsum⟩ : ∃ k l : Nat, 0 < s.apply (t.apply k + u.apply l) := ⟨_, _, onSide_normalize h⟩
    -- If both terms are on the other side, so is the sum of their mantissas.
    by_cases ht : t = s
    · exact .inl ht
    · by_cases hu : u = s
      · exact .inr hu
      · cases s <;> cases t <;> cases u <;> simp only [Sign.apply] at hsum ht hu <;> first | contradiction | omega
  case infinity.infinity =>
    rw [add] at h
    split at h
    · exact .inl h
    · cases h
  case zero.zero =>
    rw [add] at h
    split at h <;> cases h
  all_goals first | exact .inl h | exact .inr h

theorem pos_of_add_pos (h : 0.0 < x + y) : 0.0 < x ∨ 0.0 < y := by
  rw [pos_iff, form_add, onSide_clip] at h
  rw [pos_iff, pos_iff]
  exact onSide_add h

theorem neg_of_add_neg (h : x + y < 0.0) : x < 0.0 ∨ y < 0.0 := by
  rw [neg_iff, form_add, onSide_clip] at h
  rw [neg_iff, neg_iff]
  exact onSide_add h

theorem not_mul_self_neg (x : Float) : ¬x * x < 0.0 := by
  rw [neg_iff, form_mul, onSide_clip]
  rcases form x with s | _ | s | ⟨s, m, e, hm⟩
  · cases s <;> simp [mul, OnSide]
  · exact id
  · exact id
  · intro h
    have hsign := onSide_roundWithAccuracy h
    cases s <;> cases hsign

/-! ### What is not a number -/

theorem isNaN_iff : x.isNaN ↔ form x = .notANumber := by
  show (form x).isNaN ↔ _
  cases form x <;> simp [UnpackedFloat.isNaN]

theorem not_lt_of_isNaN_left (hx : x.isNaN) : ¬x < y := by
  rw [lt_iff, isNaN_iff.mp hx]
  simp [UnpackedFloat.compare]

theorem not_lt_of_isNaN (hy : y.isNaN) : ¬x < y := by
  have hcompare : UnpackedFloat.compare (form x) (form y) = none := by
    rw [isNaN_iff.mp hy]
    cases form x <;> rfl
  simp [lt_iff, hcompare]

theorem isNaN_add (hy : y.isNaN) : (x + y).isNaN := by
  rw [isNaN_iff, form_add, isNaN_iff.mp hy]
  cases form x <;> rfl

/-- A number is above zero if it is not below it and not a zero. -/
theorem pos_of_not (hneg : ¬x < 0.0) (hzero : ¬x == 0.0) (hnan : ¬x.isNaN) : 0.0 < x := by
  rw [neg_iff] at hneg
  rw [beq_zero_iff] at hzero
  rw [isNaN_iff] at hnan
  rw [pos_iff]
  generalize form x = f at *
  rcases f with (_ | _) | _ | s | ⟨_ | _⟩ <;> simp_all [OnSide]

/-! ### Products with one -/

theorem form_one : form 1.0 = .finite .positive (2 ^ 52) (-52) (Nat.two_pow_pos 52) := rfl

protected theorem mul_one (x : Float) : x * 1.0 = x := by
  have hmul : mul .binary64 (form x) (form 1.0) = form x := by
    rw [form_one]
    have hcanonical := canonical_form x
    generalize form x = f at *
    rcases f with (_ | _) | _ | (_ | _) | ⟨s, m, e, hm⟩ <;> try rfl
    have hexact := roundWithAccuracy_exact s hcanonical 52
    cases s <;> exact hexact
  apply form_injective
  rw [form_mul, hmul, clip_form]

protected theorem mul_comm (x y : Float) : x * y = y * x := by
  have hsign (s t : Sign) : s * t = t * s := by cases s <;> cases t <;> rfl
  have hmul (f g : UnpackedFloat) : mul .binary64 f g = mul .binary64 g f := by
    cases f <;> cases g <;> simp only [mul, hsign, Nat.mul_comm, Int.add_comm]
  apply form_injective
  rw [form_mul, form_mul, hmul]

protected theorem one_mul (x : Float) : 1.0 * x = x := by rw [Binary64.mul_comm, Binary64.mul_one]

/-! ### Quotients by powers of two -/

theorem targetExponent_eq_max (t : Int) : Format.binary64.targetExponent t = max (t - 53) leastExponent := rfl

theorem div_two_pow {m : Nat} {e d : Int} (hm : 0 < m) (hlow : 2 ^ 52 ≤ m) (hhigh : m < 2 ^ 53)
    (hleast : leastExponent < e - d - 52) :
    div .binary64 (.finite .positive m e hm) (.finite .positive (2 ^ 52) d (Nat.two_pow_pos 52)) =
      .finite .positive m (e - d - 52) hm := by
  have hlog : m.log2 = 52 := log2_eq_iff.mpr ⟨hlow, hhigh⟩
  have htarget : min (e - d) (Format.binary64.targetExponent (totalExponent m e - totalExponent (2 ^ 52) d)) =
      e - d - 53 := by
    simp only [targetExponent_eq_max, totalExponent, hlog, Nat.log2_two_pow]
    omega
  have hshift : (e - d - (e - d - 53)).toNat = 53 := by omega
  have hquotient : m <<< 53 = m * 2 * 2 ^ 52 := by rw [Nat.shiftLeft_eq, Nat.mul_assoc, ← Nat.pow_succ']
  have hcanonical : Canonical (.finite .positive m (e - d - 52) hm) := ⟨hhigh, Int.le_of_lt hleast, .inl hlow⟩
  -- The quotient is computed with 54 bits. It is twice the mantissa, and nothing is left over.
  have hexact := roundWithAccuracy_exact .positive hcanonical 1
  rw [show e - d - 52 - (1 : Nat) = e - d - 53 by omega] at hexact
  simp only [div, divCore, htarget, hshift, hquotient, Nat.mul_mod_left, accuracyOfFraction,
    Nat.mul_div_cancel _ (Nat.two_pow_pos 52)]
  exact hexact

theorem form_div_two_pow {m : Nat} {e d : Int} {hm : 0 < m} (hx : form x = .finite .positive m e hm)
    (hy : form y = .finite .positive (2 ^ 52) d (Nat.two_pow_pos 52))
    (hlow : 2 ^ 52 ≤ m) (hleast : leastExponent < e - d - 52) (hgreatest : e - d - 52 ≤ greatestExponent) :
    form (x / y) = .finite .positive m (e - d - 52) hm := by
  have hhigh : m < 2 ^ 53 := by
    have hcanonical := canonical_form x
    rw [hx] at hcanonical
    exact hcanonical.1
  have hdiv := div_two_pow (d := d) hm hlow hhigh hleast
  rw [← hx, ← hy] at hdiv
  have hcanonical : Canonical (.finite .positive m (e - d - 52) hm) := ⟨hhigh, Int.le_of_lt hleast, .inl hlow⟩
  calc form (x / y) = form (ofForm (div .binary64 (form x) (form y))) := rfl
    _ = clip (.finite .positive m (e - d - 52) hm) := by rw [hdiv, form_ofForm hcanonical]
    _ = .finite .positive m (e - d - 52) hm := by rw [clip, if_neg (Int.not_lt.mpr hgreatest)]

/-! ### Whole numbers -/

/-- Whole numbers below `2 ^ 53` are written with 53 bits. -/
theorem form_toFloat_eq {n : UInt64} (hpos : 0 < n.toNat) (hn : n.toNat < 2 ^ 53) :
    form n.toFloat = .finite .positive (n.toNat * 2 ^ (52 - n.toNat.log2)) (n.toNat.log2 - 52)
      (Nat.mul_pos hpos (Nat.two_pow_pos _)) := by
  have hlog : n.toNat.log2 < 53 := (Nat.log2_lt (Nat.ne_of_gt hpos)).mpr hn
  have hgrid : grid n.toNat 0 = n.toNat.log2 - 52 := by
    simp only [grid, leastExponent]
    omega
  have hshift : (0 - (n.toNat.log2 - 52 : Int)).toNat = 52 - n.toNat.log2 := by omega
  have hnormalize : UnpackedFloat.normalize .binary64 n.toNat 0 .positive =
      UnpackedFloat.round .binary64 .positive n.toNat 0 := by
    rw [UnpackedFloat.normalize, Int.compare_eq_gt.mpr (by omega), Int.toNat_natCast]
  have hround := round_exact .positive hpos (e := 0) (by omega)
  have hform : form n.toFloat = clip (UnpackedFloat.round .binary64 .positive n.toNat 0) := by
    rw [← form_ofForm (canonical_round .positive hpos 0), ← hnormalize]
    rfl
  simp only [hgrid, hshift] at hround
  rw [hform, hround, clip, if_neg (by simp only [greatestExponent]; omega)]

/-- Whole numbers from one to `2 ^ 53` have a mantissa of 53 bits and no exponent above zero. -/
theorem form_toFloat {n : UInt64} (hpos : 0 < n.toNat) (hn : n.toNat < 2 ^ 53) :
    ∃ m e, ∃ hm : 0 < m, form n.toFloat = .finite .positive m e hm ∧ 2 ^ 52 ≤ m ∧ -52 ≤ e ∧ e ≤ 0 := by
  have hlog : n.toNat.log2 < 53 := (Nat.log2_lt (Nat.ne_of_gt hpos)).mpr hn
  refine ⟨_, _, _, form_toFloat_eq hpos hn, ?_, by omega, by omega⟩
  calc 2 ^ 52 = 2 ^ n.toNat.log2 * 2 ^ (52 - n.toNat.log2) := by
        rw [← Nat.pow_add, Nat.add_sub_cancel' (Nat.le_of_lt_succ hlog)]
    _ ≤ _ := Nat.mul_le_mul_right _ (Nat.log2_self_le (Nat.ne_of_gt hpos))

theorem form_ofScientific {n : Nat} (hpos : 0 < n) (hn : n < 2 ^ 53) :
    ∃ m e, ∃ hm : 0 < m, form (Float.ofScientific n true 0) = .finite .positive m e hm ∧
      2 ^ 52 ≤ m ∧ -52 ≤ e ∧ e ≤ 0 := by
  have htoNat : n.toUInt64.toNat = n := Nat.mod_eq_of_lt (Nat.lt_trans hn (by decide))
  obtain ⟨m, e, hm, hform, hfull, hlow, hhigh⟩ := form_toFloat (n := n.toUInt64) (by omega) (by omega)
  have hquotient : Float.ofScientific n true 0 = n.toUInt64.toFloat / 1.0 := by
    rw [Float.ofScientific, dif_pos ⟨hn, by decide⟩]
    rfl
  have hdiv := form_div_two_pow hform form_one hfull (by simp only [leastExponent]; omega)
    (by simp only [greatestExponent]; omega)
  rw [← hquotient] at hdiv
  exact ⟨m, _, hm, hdiv, hfull, by omega, by omega⟩

end Ketscript.Binary64
