import Ketscript.Proofs.Binary64.Arithmetic

/-! Real values of binary64 numbers. A finite number stands for a real one. The result of an operation stands for the
    exact result up to a part in `2 ^ 52` and a unit of the least exponent, and it is finite unless this is too large. -/

namespace Ketscript.Binary64
open Float.Model (Format UnpackedFloat totalExponent)
open Float.Model.UnpackedFloat

variable {x y : Float} {f g : UnpackedFloat} {s t : Sign}

/-! ### Values -/

def applySign : Sign → ℝ → ℝ
  | .negative, r => -r
  | .positive, r => r

/-- The real number that a finite form stands for. An infinity and what is not a number are given zero. -/
noncomputable def value : UnpackedFloat → ℝ
  | .finite s m e _ => applySign s (m * ((2 : ℕ) : ℝ) ^ e)
  | _ => 0

@[simp] theorem value_zero (s : Sign) : value (.zero s) = 0 := rfl

@[simp] theorem value_finite (s : Sign) {m : Nat} (e : Int) (hm : 0 < m) :
    value (.finite s m e hm) = applySign s (m * 2 ^ e) := by
  rw [value, Nat.cast_ofNat]

noncomputable def toReal (x : Float) : ℝ := value (form x)

theorem applySign_mul (s t : Sign) (a b : ℝ) : applySign (s * t) (a * b) = applySign s a * applySign t b := by
  rcases s with _ | _ <;> rcases t with _ | _
  · exact (neg_mul_neg a b).symm
  · exact (neg_mul a b).symm
  · exact (mul_neg a b).symm
  · rfl

theorem applySign_neg (s : Sign) (a : ℝ) : applySign (-s) a = -applySign s a := by
  cases s
  · exact (neg_neg a).symm
  · rfl

theorem applySign_sub (s : Sign) (a b : ℝ) : applySign s a - applySign s b = applySign s (a - b) := by
  cases s <;> simp only [applySign]
  ring

theorem abs_applySign (s : Sign) (a : ℝ) : |applySign s a| = |a| := by
  cases s <;> simp only [applySign, abs_neg]

theorem mul_cast_two_pow (m n : Nat) (e d : Int) : ((m * n : ℕ) : ℝ) * 2 ^ (e + d) = m * 2 ^ e * (n * 2 ^ d) := by
  rw [zpow_add₀ two_ne_zero, Nat.cast_mul]
  ring

theorem apply_cast (s : Sign) (n : Int) : ((s.apply n : Int) : ℝ) = applySign s n := by
  cases s <;> simp only [Sign.apply, applySign, Int.cast_neg]

theorem value_clip (h : (clip f).isFinite) : value (clip f) = value f := by
  cases f with
  | finite s m e hm =>
    rw [clip] at h ⊢
    split at h
    · cases h
    · rename_i hle
      rw [if_neg hle]
  | _ => rfl

theorem toReal_neg (x : Float) : toReal (-x) = -toReal x := by
  rw [toReal, toReal, form_neg]
  cases form x with
  | finite s m e hm => exact applySign_neg s _
  | _ => exact neg_zero.symm

theorem isFinite_neg (h : x.isFinite) : (-x).isFinite := by
  have h : (form x).isFinite := h
  show (form (-x)).isFinite
  rw [form_neg]
  generalize form x = f at h
  cases f <;> exact h

theorem toReal_one : toReal 1.0 = 1 := by
  rw [toReal, form_one, value_finite, applySign]
  norm_num

theorem toReal_zero : toReal 0.0 = 0 := by rw [toReal, form_zero, value_zero]

/-- Only zeros stand for zero. -/
theorem toReal_eq_zero_iff (h : x.isFinite) : toReal x = 0 ↔ x == 0.0 := by
  obtain ⟨hinfinity, hnan⟩ := isFinite_iff.mp h
  rw [beq_zero_iff, toReal]
  generalize form x = f at *
  cases f with
  | infinity s => exact absurd rfl (hinfinity s)
  | notANumber => exact absurd rfl hnan
  | zero s => exact iff_of_true rfl ⟨s, rfl⟩
  | finite s m e hm =>
    have hpos : (0 : ℝ) < m * 2 ^ e := by positivity
    refine iff_of_false ?_ (by simp)
    rw [value_finite, ← abs_eq_zero, abs_applySign, abs_eq_zero]
    exact hpos.ne'

/-! ### Rounding -/

/-- A form stands for a number up to a rounding, and it is finite if this number is not too large. -/
structure Approximates (f : UnpackedFloat) (r : ℝ) : Prop where
  finite : |r| < 2 ^ (1023 : ℤ) → f.isFinite
  error : f.isFinite → |value f - r| ≤ |r| * 2 ^ (-52 : ℤ) + 2 ^ leastExponent

theorem Approximates.abs_le {r : ℝ} {n : ℤ} (h : Approximates f r) (hf : f.isFinite) (hn : leastExponent < n)
    (hr : |r| ≤ 2 ^ n) : |value f| ≤ 2 ^ (n + 1) := by
  have herror : |value f - r| ≤ 2 ^ n * 2 ^ (-1 : ℤ) + 2 ^ (n - 1) := by
    refine (h.error hf).trans ?_
    gcongr
    · exact one_le_two
    · decide
    · exact one_le_two
    · omega
  have htriangle := abs_sub_abs_le_abs_sub (value f) r
  rw [zpow_sub_one₀ two_ne_zero, zpow_neg_one] at herror
  rw [zpow_add_one₀ two_ne_zero]
  linarith

/-- A number that is not too small keeps nearly all of its absolute value. -/
theorem Approximates.le_abs {r b : ℝ} (h : Approximates f r) (hf : f.isFinite) (hb : 1 ≤ b) (hr : b ≤ |r|) :
    b * (1 - 2 ^ (-51 : ℤ)) ≤ |value f| := by
  have hleast : (2 : ℝ) ^ leastExponent ≤ 2 ^ (-52 : ℤ) := zpow_le_zpow_right₀ one_le_two (by decide)
  have herror := h.error hf
  have htriangle := abs_sub_abs_le_abs_sub r (value f)
  rw [abs_sub_comm] at htriangle
  norm_num at hleast herror ⊢
  linarith

theorem two_pow_log2_le {m : Nat} (hm : 0 < m) (e : Int) : (2 : ℝ) ^ (m.log2 + e) ≤ m * 2 ^ e := by
  have hlog : 2 ^ m.log2 ≤ m := Nat.log2_self_le (Nat.ne_of_gt hm)
  rw [zpow_add₀ two_ne_zero, zpow_natCast]
  gcongr
  exact_mod_cast hlog

theorem two_pow_grid_le {m : Nat} {e : Int} (h : e ≤ grid m e) :
    (2 : ℝ) ^ grid m e ≤ m * 2 ^ e * 2 ^ (-52 : ℤ) + 2 ^ leastExponent := by
  rcases grid_eq_or h with heq | ⟨hm, heq⟩
  · rw [heq]
    exact le_add_of_nonneg_left (by positivity)
  · refine le_add_of_le_of_nonneg ?_ (by positivity)
    rw [heq, Int.sub_eq_add_neg, zpow_add₀ two_ne_zero]
    gcongr
    exact two_pow_log2_le hm e

theorem Rounds.value_eq {r : Nat} {e : Int} (h : Rounds s r e f) : value f = applySign s (r * 2 ^ e) := by
  cases h with
  | zero h =>
    subst h
    cases s <;> simp [applySign]
  | kept => rfl
  | carried h =>
    subst h
    have hcarry : ((2 ^ 52 : ℕ) : ℝ) * 2 ^ (e + 1) = ((2 ^ 53 : ℕ) : ℝ) * 2 ^ e := by
      rw [zpow_add₀ two_ne_zero]
      push_cast
      ring
    rw [value_finite, hcarry]

theorem Rounds.isFinite_clip {r : Nat} {e : Int} (h : Rounds s r e f) (he : e < greatestExponent) :
    (clip f).isFinite := by
  cases h with
  | zero => rfl
  | kept => rw [clip, if_neg (by omega)]; rfl
  | carried => rw [clip, if_neg (by omega)]; rfl

/-- What is rounded is a number whose mantissa is `m` up to digits that were cut off. -/
theorem approximates_roundWithAccuracy (s : Sign) {m : Nat} {e : Int} {r : ℝ} (he : e ≤ grid m e)
    (hlow : m * 2 ^ e ≤ r) (hhigh : r < (m + 1) * 2 ^ e) (accuracy : Accuracy) :
    Approximates (clip (roundWithAccuracy .binary64 s m e accuracy)) (applySign s r) := by
  have hrounds := rounds_roundWithAccuracy s m e accuracy
  obtain ⟨hbelow, habove⟩ := rounded_bounds m accuracy (grid m e - e).toNat
  generalize hk : (grid m e - e).toNat = k at *
  have hgrid : e + (k : Int) = grid m e := by omega
  simp only [hgrid] at hrounds
  refine ⟨fun hr => hrounds.isFinite_clip ?_, fun hfinite => ?_⟩
  · rw [abs_applySign] at hr
    rcases grid_eq_or he with heq | ⟨hm, heq⟩
    · rw [heq]
      decide
    · have hlog := ((two_pow_log2_le hm e).trans hlow).trans_lt ((le_abs_self r).trans_lt hr)
      have hlog := (zpow_lt_zpow_iff_right₀ one_lt_two).mp hlog
      simp only [greatestExponent]
      omega
  rw [value_clip hfinite, hrounds.value_eq, applySign_sub, abs_applySign, abs_applySign]
  -- The mantissa that is left and the number lie between the same two neighbours.
  have hunit : (2 : ℝ) ^ grid m e = 2 ^ k * 2 ^ e := by
    rw [← hgrid, add_comm, zpow_add₀ two_ne_zero, zpow_natCast]
  have hleft : ((m / 2 ^ k : ℕ) : ℝ) * 2 ^ grid m e ≤ r := by
    have hfloor : ((m / 2 ^ k : ℕ) : ℝ) * 2 ^ k ≤ m := by exact_mod_cast Nat.div_mul_le_self m (2 ^ k)
    calc ((m / 2 ^ k : ℕ) : ℝ) * 2 ^ grid m e = (m / 2 ^ k : ℕ) * 2 ^ k * 2 ^ e := by rw [hunit, mul_assoc]
      _ ≤ m * 2 ^ e := by gcongr
      _ ≤ r := hlow
  have hright : r < ((m / 2 ^ k : ℕ) + 1) * (2 : ℝ) ^ grid m e := by
    have hceil : (m : ℝ) + 1 ≤ ((m / 2 ^ k : ℕ) + 1) * 2 ^ k := by
      exact_mod_cast Nat.lt_mul_of_div_lt (Nat.lt_succ_self _) (Nat.two_pow_pos k)
    calc r < (m + 1) * 2 ^ e := hhigh
      _ ≤ ((m / 2 ^ k : ℕ) + 1) * 2 ^ k * 2 ^ e := by gcongr
      _ = _ := by rw [hunit, mul_assoc]
  have hunit_le : (2 : ℝ) ^ grid m e ≤ r * 2 ^ (-52 : ℤ) + 2 ^ leastExponent := by
    refine (two_pow_grid_le he).trans ?_
    gcongr
  have hnonneg : 0 ≤ r := le_trans (by positivity) hlow
  have hbelow : ((m / 2 ^ k : ℕ) : ℝ) * 2 ^ grid m e ≤ rounded m accuracy k * 2 ^ grid m e := by gcongr
  have habove : (rounded m accuracy k : ℝ) * 2 ^ grid m e ≤ ((m / 2 ^ k : ℕ) + 1) * 2 ^ grid m e := by
    gcongr
    exact_mod_cast habove
  rw [abs_of_nonneg hnonneg, abs_le]
  constructor <;> linarith

theorem approximates_round (s : Sign) {m : Nat} (hm : 0 < m) (e : Int) :
    Approximates (clip (UnpackedFloat.round .binary64 s m e)) (applySign s (m * 2 ^ e)) := by
  have hsame : ((m * 2 ^ (e - grid m e).toNat : ℕ) : ℝ) * 2 ^ (e - (e - grid m e).toNat) = m * 2 ^ e := by
    rw [zpow_sub₀ two_ne_zero, zpow_natCast]
    push_cast
    field_simp
  rw [round_eq]
  refine approximates_roundWithAccuracy s ?_ hsame.le ?_ .exact
  · rw [grid_mul_two_pow hm]
    omega
  · rw [← hsame]
    gcongr
    exact lt_add_one _

theorem approximates_zero (s : Sign) : Approximates (.zero s) 0 :=
  ⟨fun _ => rfl, fun _ => by simp; positivity⟩

/-- Every finite number is below the range. -/
theorem abs_toReal_lt (x : Float) : |toReal x| < 2 ^ (1024 : ℤ) := by
  have hcanonical := canonical_form x
  rw [toReal]
  cases hform : form x with
  | finite s m e hm =>
    rw [hform] at hcanonical
    have hgreatest := exponent_le hform
    rw [value_finite, abs_applySign, abs_of_nonneg (by positivity)]
    calc (m : ℝ) * 2 ^ e < 2 ^ (53 : ℕ) * 2 ^ e := by
          gcongr
          exact_mod_cast hcanonical.1
      _ ≤ 2 ^ (53 : ℕ) * 2 ^ greatestExponent := by
          gcongr
          exact one_le_two
      _ = 2 ^ (1024 : ℤ) := by
          rw [← zpow_natCast, ← zpow_add₀ two_ne_zero]
          rfl
  | _ =>
    show |(0 : ℝ)| < _
    rw [abs_zero]
    positivity

/-! ### Results of operations -/

theorem approximates_self (h : x.isFinite) : Approximates (form x) (toReal x) :=
  ⟨fun _ => h, fun _ => by simp [toReal]; positivity⟩

theorem approximates_mul (hx : x.isFinite) (hy : y.isFinite) :
    Approximates (form (x * y)) (toReal x * toReal y) := by
  have hx : (form x).isFinite := hx
  have hy : (form y).isFinite := hy
  have hcanonicalx := canonical_form x
  have hcanonicaly := canonical_form y
  rw [form_mul]
  simp only [toReal]
  generalize form x = f at *
  generalize form y = g at *
  rcases f with s | _ | s | ⟨s, m, e, hm⟩ <;> rcases g with t | _ | t | ⟨t, n, d, hn⟩
  case finite.finite =>
    rw [value_finite, value_finite, ← applySign_mul, ← mul_cast_two_pow]
    refine approximates_roundWithAccuracy _ (le_grid_mul hcanonicalx hcanonicaly) le_rfl ?_ .exact
    gcongr
    exact lt_add_one _
  case zero.zero | zero.finite =>
    rw [value_zero, zero_mul]
    exact approximates_zero _
  case finite.zero =>
    rw [value_zero, mul_zero]
    exact approximates_zero _
  all_goals first | exact absurd hx Bool.false_ne_true | exact absurd hy Bool.false_ne_true

theorem isFinite_of_mul (h : (x * y).isFinite) : y.isFinite := by
  have h : (form (x * y)).isFinite := h
  show (form y).isFinite
  rw [form_mul] at h
  generalize form x = f at *
  generalize form y = g at *
  cases g with
  | zero | finite => rfl
  | infinity | notANumber => cases f <;> cases h

theorem approximates_normalize (m e : Int) (s : Sign) :
    Approximates (clip (UnpackedFloat.normalize .binary64 m e s)) (m * 2 ^ e) := by
  rcases normalize_cases m e s with ⟨hm, hround⟩ | ⟨rfl, hzero⟩ | ⟨hm, hround⟩
  · have hcast : (m : ℝ) * 2 ^ e = applySign .negative ((-m).toNat * 2 ^ e) := by
      have hneg : (((-m).toNat : ℤ) : ℝ) = -m := by
        rw [Int.toNat_of_nonneg (by omega)]
        exact Int.cast_neg m
      rw [applySign, ← Int.cast_natCast (-m).toNat, hneg, neg_mul, neg_neg]
    rw [hround, hcast]
    exact approximates_round .negative (by omega) e
  · rw [hzero, Int.cast_zero, zero_mul]
    exact approximates_zero s
  · have hcast : (m : ℝ) * 2 ^ e = m.toNat * 2 ^ e := by
      rw [← Int.cast_natCast m.toNat, Int.toNat_of_nonneg (by omega)]
    rw [hround, hcast]
    exact approximates_round .positive (by omega) e

theorem approximates_add (hx : x.isFinite) (hy : y.isFinite) :
    Approximates (form (x + y)) (toReal x + toReal y) := by
  have hclipx := approximates_self hx
  have hclipy := approximates_self hy
  have hx : (form x).isFinite := hx
  have hy : (form y).isFinite := hy
  have hclip := clip_form x
  have hclip' := clip_form y
  rw [form_add]
  simp only [toReal] at *
  generalize form x = f at *
  generalize form y = g at *
  rcases f with s | _ | s | ⟨s, m, e, hm⟩ <;> rcases g with t | _ | t | ⟨t, n, d, hn⟩
  case finite.finite =>
    -- Both mantissas are written at the lesser exponent.
    have hshift (s : Sign) (m : Nat) (e d : Int) (hle : d ≤ e) :
        ((s.apply (m <<< (e - d).toNat : ℕ) : Int) : ℝ) * 2 ^ d = applySign s (m * 2 ^ e) := by
      have hpow : (2 : ℝ) ^ e = 2 ^ (e - d).toNat * 2 ^ d := by
        rw [← zpow_natCast, ← zpow_add₀ two_ne_zero]
        congr 1
        omega
      rw [apply_cast, Nat.shiftLeft_eq, hpow]
      push_cast
      cases s <;> simp only [applySign] <;> ring
    have hsum := congrArg₂ (· + ·) (hshift s m e (min e d) (Int.min_le_left e d))
      (hshift t n d (min e d) (Int.min_le_right e d))
    simp only [← add_mul, ← Int.cast_add] at hsum
    simp only [value_finite, ← hsum]
    exact approximates_normalize _ _ .positive
  case zero.zero =>
    rw [add]
    split <;> simpa [clip] using approximates_zero _
  case zero.finite => simpa [add, hclip'] using hclipy
  case finite.zero => simpa [add, hclip] using hclipx
  all_goals first | exact absurd hx Bool.false_ne_true | exact absurd hy Bool.false_ne_true

/-! ### Deviations -/

section Deviations
variable {r u ε δ : ℝ}

/-- A finite number that deviates from a real one by a limited amount. -/
structure Within (ε : ℝ) (x : Float) (r : ℝ) : Prop where
  finite : x.isFinite
  deviation : |toReal x - r| ≤ ε

theorem within_self (h : x.isFinite) : Within 0 x (toReal x) := ⟨h, by simp⟩

theorem Within.mono (h : Within ε x r) (hle : ε ≤ δ) : Within δ x r := ⟨h.finite, h.deviation.trans hle⟩

theorem Within.trans (h : Within ε x r) (hr : |r - u| ≤ δ) : Within (ε + δ) x u :=
  ⟨h.finite, (abs_sub_le _ _ _).trans (add_le_add h.deviation hr)⟩

theorem Within.neg (h : Within ε x r) : Within ε (-x) (-r) := by
  refine ⟨isFinite_neg h.finite, ?_⟩
  rw [toReal_neg, neg_sub_neg, abs_sub_comm]
  exact h.deviation

/-- Small results are rounded by little. -/
theorem Approximates.within (h : Approximates (form x) r) (hr : |r| ≤ 16) : Within (2 ^ (-47 : ℤ)) x r := by
  have hrange : |r| < 2 ^ (1023 : ℤ) := by
    calc |r| ≤ 2 ^ (4 : ℤ) := by norm_num [hr]
      _ < 2 ^ (1023 : ℤ) := zpow_lt_zpow_right₀ one_lt_two (by decide)
  refine ⟨h.finite hrange, (h.error (h.finite hrange)).trans ?_⟩
  calc |r| * 2 ^ (-52 : ℤ) + 2 ^ leastExponent ≤ 16 * 2 ^ (-52 : ℤ) + 2 ^ (-48 : ℤ) := by
        gcongr
        · exact one_le_two
        · decide
    _ = 2 ^ (-47 : ℤ) := by norm_num

theorem within_mul (hx : x.isFinite) (hy : y.isFinite) (h : |toReal x * toReal y| ≤ 16) :
    Within (2 ^ (-47 : ℤ)) (x * y) (toReal x * toReal y) :=
  (approximates_mul hx hy).within h

theorem Within.add (hx : Within ε x r) (hy : Within δ y u) (h : |r + u| + (ε + δ) ≤ 16) :
    Within (2 ^ (-47 : ℤ) + (ε + δ)) (x + y) (r + u) := by
  have hsum : |toReal x + toReal y - (r + u)| ≤ ε + δ := by
    rw [add_sub_add_comm]
    exact (abs_add_le _ _).trans (add_le_add hx.deviation hy.deviation)
  have hbound : |toReal x + toReal y| ≤ 16 := by
    have htriangle := abs_sub_abs_le_abs_sub (toReal x + toReal y) (r + u)
    linarith
  exact ((approximates_add hx.finite hy.finite).within hbound).trans hsum

theorem Within.sub (hx : Within ε x r) (hy : Within δ y u) (h : |r - u| + (ε + δ) ≤ 16) :
    Within (2 ^ (-47 : ℤ) + (ε + δ)) (x - y) (r - u) := by
  have hsub : r - u = r + -u := by ring
  rw [hsub] at h ⊢
  rw [sub_eq_add_neg]
  exact hx.add hy.neg h

end Deviations

/-! ### Order -/

theorem canonical_abs (h : Canonical f) : Canonical (UnpackedFloat.abs f) := by
  cases f <;> exact h

theorem form_abs (x : Float) : form x.abs = UnpackedFloat.abs (form x) := by
  have hform : form x.abs = clip (UnpackedFloat.abs (form x)) := form_ofForm (canonical_abs (canonical_form x))
  rw [hform]
  cases h : form x with
  | finite s m e hm => rw [UnpackedFloat.abs, clip, if_neg (Int.not_lt.mpr (exponent_le h))]
  | _ => rfl

theorem toReal_abs (x : Float) : toReal x.abs = |toReal x| := by
  rw [toReal, toReal, form_abs]
  cases form x with
  | finite s m e hm =>
    rw [UnpackedFloat.abs, value_finite, value_finite, abs_applySign, applySign, abs_of_nonneg (by positivity)]
  | _ => exact abs_zero.symm

/-- Canonical forms are compared by their exponents first. -/
theorem mul_two_pow_lt {m n : Nat} {e d : Int} {hm : 0 < m} {hn : 0 < n} (hf : Canonical (.finite s m e hm))
    (hg : Canonical (.finite t n d hn)) (h : e < d ∨ e = d ∧ m < n) : (m : ℝ) * 2 ^ e < n * 2 ^ d := by
  obtain ⟨hhigh, hleast, -⟩ := hf
  obtain ⟨-, -, hfull⟩ := hg
  rcases h with h | ⟨rfl, h⟩
  · have hlow : 2 ^ 52 ≤ n := hfull.resolve_right (by omega)
    calc (m : ℝ) * 2 ^ e < 2 ^ 53 * 2 ^ e := by
          gcongr
          exact_mod_cast hhigh
      _ = 2 ^ 52 * 2 ^ (e + 1) := by
          rw [zpow_add₀ two_ne_zero]
          ring
      _ ≤ n * 2 ^ d := by
          gcongr
          · exact_mod_cast hlow
          · exact one_le_two
          · omega
  · gcongr

theorem abs_le_of_toReal {m : Nat} {e : Int} {hm : 0 < m} (hx : x.isFinite)
    (hy : form y = .finite .positive m e hm) (h : |toReal x| ≤ toReal y) : x.abs ≤ y := by
  show decide ((form x.abs).le (form y)) = true
  have hx : (form x).isFinite := hx
  have hcanonical := canonical_form x
  have hcanonical' := canonical_form y
  rw [← toReal_abs, toReal, toReal, form_abs, hy] at h
  rw [hy] at hcanonical'
  rw [form_abs, hy, decide_eq_true_eq]
  generalize form x = f at *
  rcases f with _ | _ | _ | ⟨s, n, d, hn⟩
  case finite =>
    rw [UnpackedFloat.abs, value_finite, value_finite, applySign, applySign] at h
    rw [UnpackedFloat.abs, UnpackedFloat.le, UnpackedFloat.compare]
    by_contra hgt
    refine absurd h (not_le.mpr (mul_two_pow_lt hcanonical' hcanonical ?_))
    rcases hd : compare d e with _ | _ | _
    · simp [hd] at hgt
    · rcases hn : compare n m with _ | _ | _
      · simp [hd, hn] at hgt
      · simp [hd, hn] at hgt
      · exact .inr ⟨(Int.compare_eq_eq.mp hd).symm, Nat.compare_eq_gt.mp hn⟩
    · exact .inl (Int.compare_eq_gt.mp hd)
  case zero => rfl
  all_goals exact absurd hx Bool.false_ne_true

end Ketscript.Binary64
