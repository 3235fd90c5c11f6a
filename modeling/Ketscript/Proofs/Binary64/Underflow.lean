import Ketscript.Proofs.Binary64.Value

/-! Where binary64 arithmetic gives zero. A product is rounded to zero if it is at most half of the least positive
    number, so the square of a number that is not zero can be zero. A sum of numbers that are not below zero is zero
    only if all of them are, and a square root only if it is that of zero. -/

namespace Ketscript.Binary64
open Float.Model (Format UnpackedFloat totalExponent)
open Float.Model.UnpackedFloat

variable {x y : Float} {f g : UnpackedFloat} {s t : Sign}

/-! ### Rounding to zero -/

theorem shiftRight_succ (m k : Nat) : ExtendedMantissa.ofMantissaAndAccuracy m .exact >>> (k + 1) =
    ⟨m / 2 ^ (k + 1), m / 2 ^ k % 2 != 0, m % 2 ^ k != 0⟩ := by
  induction k with
  | zero =>
    show ExtendedMantissa.shiftRightOne ⟨m, false, false⟩ = _
    simp [ExtendedMantissa.shiftRightOne, Nat.mod_one]
  | succ k ih =>
    show (ExtendedMantissa.ofMantissaAndAccuracy m .exact >>> (k + 1)).shiftRightOne = _
    have hmod : m % 2 ^ (k + 1) = m % 2 ^ k + 2 ^ k * (m / 2 ^ k % 2) := Nat.mod_pow_succ
    rw [ih, ExtendedMantissa.shiftRightOne, Nat.div_div_eq_div_mul, ← Nat.pow_succ, hmod]
    congr 1
    rcases Nat.mod_two_eq_zero_or_one (m / 2 ^ k) with hbit | hbit <;> simp [hbit]

theorem roundedMantissa_eq_zero_iff (m : Nat) (roundBit stickyBit : Bool) :
    (ExtendedMantissa.mk m roundBit stickyBit).roundedMantissa = 0 ↔
      m = 0 ∧ (roundBit = false ∨ stickyBit = false) := by
  cases roundBit <;> cases stickyBit <;>
    simp [ExtendedMantissa.roundedMantissa, ExtendedMantissa.accuracy, Accuracy.roundToNearestEven]
  omega

/-- Half a unit is still rounded to zero, to the even side. -/
theorem rounded_succ_eq_zero_iff (m k : Nat) : rounded m .exact (k + 1) = 0 ↔ m ≤ 2 ^ k := by
  have hm : 2 ^ k * (m / 2 ^ k) + m % 2 ^ k = m := Nat.div_add_mod m (2 ^ k)
  have hlt : m % 2 ^ k < 2 ^ k := Nat.mod_lt m (Nat.two_pow_pos k)
  have hdiv : m / 2 ^ (k + 1) = m / 2 ^ k / 2 := by rw [Nat.pow_succ, Nat.div_div_eq_div_mul]
  rw [rounded, shiftRight_succ, roundedMantissa_eq_zero_iff, hdiv, bne_eq_false_iff_eq, bne_eq_false_iff_eq]
  generalize m / 2 ^ k = q at *
  generalize m % 2 ^ k = r at *
  rcases q with _ | _ | q
  · omega
  · omega
  · have hq : 2 ^ k * (q + 1 + 1) = 2 ^ k * q + 2 ^ k + 2 ^ k := by ring
    have hpos := Nat.two_pow_pos k
    omega

theorem roundWithAccuracy_eq_zero_iff (s : Sign) {m : Nat} {e : Int} (hm : 0 < m) :
    (∃ t, roundWithAccuracy .binary64 s m e .exact = .zero t) ↔ (m : ℝ) * 2 ^ e ≤ 2 ^ (-1075 : ℤ) := by
  have hrounds := rounds_roundWithAccuracy s m e .exact
  have hlog : m.log2 < (grid m e - e).toNat → grid m e = leastExponent := by
    simp only [grid]
    omega
  have hrounded : (∃ t, roundWithAccuracy .binary64 s m e .exact = .zero t) ↔
      rounded m .exact (grid m e - e).toNat = 0 := by
    generalize roundWithAccuracy .binary64 s m e .exact = f at hrounds
    cases hrounds with
    | zero h => simp [h]
    | kept hpos => simp [hpos.ne']
    | carried h => simp [h]
  -- Half of the least positive number is `2 ^ j` units of the exponent `e`.
  have hhalf (j : Nat) (hj : e + j = -1075) : (m : ℝ) * 2 ^ e ≤ 2 ^ (-1075 : ℤ) ↔ m ≤ 2 ^ j := by
    rw [← hj, add_comm e, zpow_add₀ two_ne_zero, zpow_natCast, mul_le_mul_iff_left₀ (by positivity)]
    exact_mod_cast Iff.rfl
  rw [hrounded]
  constructor
  · intro hzero
    have hleft : m / 2 ^ (grid m e - e).toNat = 0 := Nat.le_zero.mp (hzero ▸ (rounded_bounds m .exact _).1)
    have hlt : m < 2 ^ (grid m e - e).toNat := (Nat.div_eq_zero_iff_lt (Nat.two_pow_pos _)).mp hleft
    have hgrid := hlog ((Nat.log2_lt (Nat.ne_of_gt hm)).mpr hlt)
    obtain ⟨j, hj⟩ : ∃ j, (grid m e - e).toNat = j + 1 := Nat.exists_eq_succ_of_ne_zero (by
      rintro h
      rw [h] at hlt
      omega)
    rw [hj, rounded_succ_eq_zero_iff] at hzero
    simp only [leastExponent] at hgrid
    exact (hhalf j (by omega)).mpr hzero
  · intro hle
    have he : e ≤ -1075 := by
      have hone : (2 : ℝ) ^ e ≤ m * 2 ^ e := le_mul_of_one_le_left (by positivity) (by exact_mod_cast hm)
      exact (zpow_le_zpow_iff_right₀ one_lt_two).mp (hone.trans hle)
    obtain ⟨j, hj⟩ : ∃ j : Nat, e + j = -1075 := ⟨(-1075 - e).toNat, by omega⟩
    have hmj := (hhalf j hj).mp hle
    have hmlog : m.log2 < j + 1 := by
      refine (Nat.log2_lt (Nat.ne_of_gt hm)).mpr (Nat.lt_of_le_of_lt hmj ?_)
      exact Nat.pow_lt_pow_right Nat.one_lt_two (Nat.lt_succ_self j)
    have hk : (grid m e - e).toNat = j + 1 := by
      simp only [grid, leastExponent]
      omega
    rw [hk, rounded_succ_eq_zero_iff]
    exact hmj

/-- Below the power of two below it no number is rounded. -/
theorem two_pow_le_value_roundWithAccuracy {m : Nat} {e : Int} (hm : 0 < m) (he : leastExponent ≤ e)
    (accuracy : Accuracy) : (2 : ℝ) ^ (m.log2 + e) ≤ value (roundWithAccuracy .binary64 .positive m e accuracy) := by
  have hrounds := rounds_roundWithAccuracy .positive m e accuracy
  have hbounds := rounded_bounds m accuracy (grid m e - e).toNat
  have hk : (grid m e - e).toNat ≤ m.log2 := by
    simp only [grid]
    omega
  generalize (grid m e - e).toNat = k at *
  have hleft : 2 ^ (m.log2 - k) ≤ m / 2 ^ k := by
    rw [Nat.le_div_iff_mul_le (Nat.two_pow_pos k), ← Nat.pow_add, Nat.sub_add_cancel hk]
    exact Nat.log2_self_le (Nat.ne_of_gt hm)
  have hexponent : (m.log2 : Int) + e = (m.log2 - k : ℕ) + (e + k) := by omega
  rw [hrounds.value_eq, applySign, hexponent, zpow_add₀ two_ne_zero, zpow_natCast]
  gcongr
  exact_mod_cast hleft.trans hbounds.1

/-! ### Products -/

theorem clip_eq_zero_iff : (∃ s, clip f = .zero s) ↔ ∃ s, f = .zero s := by
  cases f with
  | finite s m e hm =>
    rw [clip]
    split <;> simp
  | _ => exact Iff.rfl

theorem clip_eq_notANumber_iff : clip f = .notANumber ↔ f = .notANumber := by
  cases f with
  | finite s m e hm =>
    rw [clip]
    split <;> simp
  | _ => exact Iff.rfl

theorem roundWithAccuracy_ne_notANumber (s : Sign) (m : Nat) (e : Int) (accuracy : Accuracy) :
    roundWithAccuracy .binary64 s m e accuracy ≠ .notANumber := by
  have hrounds := rounds_roundWithAccuracy s m e accuracy
  intro h
  rw [h] at hrounds
  cases hrounds

theorem isFinite_of_mul_beq_zero (h : x * y == 0.0) : x.isFinite ∧ y.isFinite := by
  show (form x).isFinite ∧ (form y).isFinite
  rw [beq_zero_iff, form_mul, clip_eq_zero_iff] at h
  obtain ⟨s, h⟩ := h
  generalize form x = f at *
  generalize form y = g at *
  cases f <;> cases g <;> first | exact ⟨rfl, rfl⟩ | cases h

theorem mul_beq_zero_iff :
    x * y == 0.0 ↔ x.isFinite ∧ y.isFinite ∧ |toReal x * toReal y| ≤ 2 ^ (-1075 : ℤ) := by
  suffices h : x.isFinite → y.isFinite → (x * y == 0.0 ↔ |toReal x * toReal y| ≤ 2 ^ (-1075 : ℤ)) by
    constructor
    · intro hzero
      obtain ⟨hx, hy⟩ := isFinite_of_mul_beq_zero hzero
      exact ⟨hx, hy, (h hx hy).mp hzero⟩
    · rintro ⟨hx, hy, hle⟩
      exact (h hx hy).mpr hle
  intro hx hy
  have hx : (form x).isFinite := hx
  have hy : (form y).isFinite := hy
  rw [beq_zero_iff, form_mul, clip_eq_zero_iff, toReal, toReal]
  generalize form x = f at *
  generalize form y = g at *
  rcases f with s | _ | s | ⟨s, m, e, hm⟩ <;> rcases g with t | _ | t | ⟨t, n, d, hn⟩
  case finite.finite =>
    rw [value_finite, value_finite, ← applySign_mul, abs_applySign, abs_of_nonneg (by positivity), ← mul_cast_two_pow]
    exact roundWithAccuracy_eq_zero_iff (s * t) (Nat.mul_pos hm hn)
  case zero.zero | zero.finite =>
    refine iff_of_true ⟨_, rfl⟩ ?_
    rw [value_zero, zero_mul, abs_zero]
    positivity
  case finite.zero =>
    refine iff_of_true ⟨_, rfl⟩ ?_
    rw [value_zero, mul_zero, abs_zero]
    positivity
  all_goals first | exact absurd hx Bool.false_ne_true | exact absurd hy Bool.false_ne_true

theorem isFinite_of_beq_zero (h : x == 0.0) : x.isFinite := by
  obtain ⟨s, h⟩ := beq_zero_iff.mp h
  show (form x).isFinite
  rw [h]
  rfl

/-- A number, zero among them, whose square is rounded to zero: its modulus is at most `2 ^ -537.5`. -/
structure Negligible (x : Float) : Prop where
  finite : x.isFinite
  small : toReal x ^ 2 ≤ 2 ^ (-1075 : ℤ)

theorem mul_self_beq_zero_iff : x * x == 0.0 ↔ Negligible x := by
  rw [mul_beq_zero_iff, ← pow_two, abs_of_nonneg (sq_nonneg _)]
  exact ⟨fun h => ⟨h.1, h.2.2⟩, fun h => ⟨h.finite, h.finite, h.small⟩⟩

instance : Decidable (Negligible x) := decidable_of_iff _ mul_self_beq_zero_iff

theorem isNaN_mul_self_iff : (x * x).isNaN ↔ x.isNaN := by
  rw [isNaN_iff, isNaN_iff, form_mul, clip_eq_notANumber_iff]
  cases form x with
  | finite s m e hm => exact iff_of_false (roundWithAccuracy_ne_notANumber _ _ _ _) (by simp)
  | _ => simp [mul]

/-! ### Sums of numbers that are not below zero -/

theorem normalize_ne_zero_of_pos {m e : Int} (hm : 0 < m) (he : leastExponent ≤ e) :
    UnpackedFloat.normalize .binary64 m e s ≠ .zero t := by
  rcases normalize_cases m e s with ⟨h, -⟩ | ⟨h, -⟩ | ⟨-, h⟩
  · omega
  · omega
  · rw [h]
    exact round_ne_zero _ _ (by omega) he

theorem normalize_ne_notANumber (m e : Int) : UnpackedFloat.normalize .binary64 m e s ≠ .notANumber := by
  rcases normalize_cases m e s with ⟨-, h⟩ | ⟨-, h⟩ | ⟨-, h⟩ <;> rw [h]
  · rw [round_eq]
    exact roundWithAccuracy_ne_notANumber _ _ _ _
  · simp
  · rw [round_eq]
    exact roundWithAccuracy_ne_notANumber _ _ _ _

theorem add_beq_zero_iff (hx : ¬x < 0.0) (hy : ¬y < 0.0) : x + y == 0.0 ↔ x == 0.0 ∧ y == 0.0 := by
  refine ⟨fun h => ?_, fun h => add_beq_zero h.1 h.2⟩
  have hcanonicalx := canonical_form x
  have hcanonicaly := canonical_form y
  rw [beq_zero_iff, form_add, clip_eq_zero_iff] at h
  rw [neg_iff] at hx hy
  rw [beq_zero_iff, beq_zero_iff]
  obtain ⟨s, h⟩ := h
  generalize form x = f at *
  generalize form y = g at *
  rcases f with s | _ | s | ⟨_ | _, m, e, hm⟩ <;> rcases g with t | _ | t | ⟨_ | _, n, d, hn⟩
  case finite.positive.finite.positive =>
    obtain ⟨-, he, -⟩ := hcanonicalx
    obtain ⟨-, hd, -⟩ := hcanonicaly
    have hshift : 0 < m <<< (e - min e d).toNat := by
      rw [Nat.shiftLeft_eq]
      exact Nat.mul_pos hm (Nat.two_pow_pos _)
    have hpos : 0 < ((m <<< (e - min e d).toNat : ℕ) : Int) + (n <<< (d - min e d).toNat : ℕ) :=
      Int.add_pos_of_pos_of_nonneg (Int.natCast_pos.mpr hshift) (Int.natCast_nonneg _)
    exact absurd h (normalize_ne_zero_of_pos hpos (Int.le_min.mpr ⟨he, hd⟩))
  case zero.zero => exact ⟨⟨_, rfl⟩, ⟨_, rfl⟩⟩
  case infinity.infinity =>
    rw [add] at h
    split at h <;> cases h
  all_goals first | exact absurd rfl hx | exact absurd rfl hy | cases h

theorem isNaN_add_iff (hx : ¬x < 0.0) (hy : ¬y < 0.0) : (x + y).isNaN ↔ x.isNaN ∨ y.isNaN := by
  rw [neg_iff] at hx hy
  rw [isNaN_iff, isNaN_iff, isNaN_iff, form_add, clip_eq_notANumber_iff]
  generalize form x = f at *
  generalize form y = g at *
  rcases f with s | _ | s | ⟨s, m, e, hm⟩ <;> rcases g with t | _ | t | ⟨t, n, d, hn⟩
  case finite.finite => exact iff_of_false (normalize_ne_notANumber _ _) (by simp)
  case infinity.infinity =>
    -- Infinities of different signs do not meet.
    cases s <;> cases t <;> first | exact absurd rfl hx | exact absurd rfl hy | simp [add]
  case zero.zero =>
    rw [add]
    split <;> simp
  all_goals simp [add]

/-! ### Square roots -/

theorem log2_sqrt {n : Nat} (hn : 0 < n) : n.sqrt.log2 = n.log2 / 2 := by
  have hlow : 2 ^ n.log2 ≤ n := Nat.log2_self_le hn.ne'
  have hhigh : n < 2 ^ (n.log2 + 1) := Nat.lt_log2_self
  have hsqrt : 0 < n.sqrt := Nat.sqrt_pos.mpr hn
  rw [Nat.log2_eq_iff hsqrt.ne']
  constructor
  · rw [Nat.le_sqrt, ← Nat.pow_add]
    exact (Nat.pow_le_pow_right Nat.two_pos (by omega)).trans hlow
  · rw [Nat.sqrt_lt, ← Nat.pow_add]
    exact hhigh.trans_le (Nat.pow_le_pow_right Nat.two_pos (by omega))

/-- The root is computed with at least 53 bits, or at the least exponent. -/
theorem sqrtCore_spec {m : Nat} {e : Int} (hm : 0 < m) (he : leastExponent ≤ e) :
    ∃ root d accuracy, sqrtCore .binary64 m e = (root, d, accuracy) ∧ 0 < root ∧ leastExponent ≤ d ∧
      d ≤ grid root d ∧ (root.log2 : Int) + d = (m.log2 + e) / 2 := by
  refine ⟨_, _, _, rfl, ?_⟩
  have htarget : Format.binary64.targetExponent ((totalExponent m e + 1).ediv 2) =
      max ((m.log2 + e + 2) / 2 - 53) leastExponent := by
    rw [targetExponent_eq_max, totalExponent]
    show max ((m.log2 + 1 + e + 1) / 2 - 53) _ = _
    congr 3
    omega
  simp only [htarget]
  generalize hd : min (e.ediv 2) (max ((m.log2 + e + 2) / 2 - 53) leastExponent) = d
  have hd : min (e / 2) (max ((m.log2 + e + 2) / 2 - 53) leastExponent) = d := hd
  have hpos : 0 < m <<< (e - 2 * d).toNat := by
    rw [Nat.shiftLeft_eq]
    exact Nat.mul_pos hm (Nat.two_pow_pos _)
  have hlog : (m <<< (e - 2 * d).toNat).sqrt.log2 = (m.log2 + (e - 2 * d).toNat) / 2 := by
    rw [log2_sqrt hpos, Nat.shiftLeft_eq, log2_mul_two_pow hm]
  have hsum : ((m <<< (e - 2 * d).toNat).sqrt.log2 : Int) + d = (m.log2 + e) / 2 := by
    rw [hlog]
    omega
  refine ⟨Nat.sqrt_pos.mpr hpos, ?_, ?_, hsum⟩
  · simp only [leastExponent] at *
    omega
  · simp only [grid, leastExponent] at *
    omega

theorem canonical_sqrt (hf : Canonical f) : Canonical (sqrt .binary64 f) := by
  rcases f with (_ | _) | _ | s | ⟨_ | _, m, e, hm⟩
  case finite.positive =>
    obtain ⟨root, d, accuracy, hcore, -, -, hgrid, -⟩ := sqrtCore_spec hm hf.2.1
    rw [sqrt, hcore]
    exact canonical_roundWithAccuracy _ hgrid accuracy
  all_goals trivial

theorem form_sqrt (x : Float) : form x.sqrt = clip (sqrt .binary64 (form x)) :=
  form_ofForm (canonical_sqrt (canonical_form x))

/-- The root of the least positive number is `2 ^ -537`. -/
theorem two_pow_le_sqrt {m : Nat} {e : Int} {hm : 0 < m} (hx : form x = .finite .positive m e hm) :
    x.sqrt.isFinite ∧ 2 ^ (-537 : ℤ) ≤ toReal x.sqrt := by
  obtain ⟨hhigh, hleast, -⟩ : Canonical (.finite .positive m e hm) := hx ▸ canonical_form x
  have hgreatest := exponent_le hx
  have hlog : m.log2 < 53 := (Nat.log2_lt hm.ne').mpr hhigh
  obtain ⟨root, d, accuracy, hcore, hroot, hd, hgrid, hsum⟩ := sqrtCore_spec hm hleast
  have hform : form x.sqrt = clip (roundWithAccuracy .binary64 .positive root d accuracy) := by
    rw [form_sqrt, hx, sqrt, hcore]
  have hfinite : (clip (roundWithAccuracy .binary64 .positive root d accuracy)).isFinite := by
    refine (rounds_roundWithAccuracy .positive root d accuracy).isFinite_clip ?_
    simp only [grid, greatestExponent, leastExponent] at *
    omega
  refine ⟨?_, ?_⟩
  · show (form x.sqrt).isFinite
    rw [hform]
    exact hfinite
  · rw [toReal, hform, value_clip hfinite]
    refine le_trans ?_ (two_pow_le_value_roundWithAccuracy hroot hd accuracy)
    refine zpow_le_zpow_right₀ one_le_two ?_
    simp only [leastExponent] at hleast
    omega

theorem sqrt_of_beq_zero (h : x == 0.0) : x.sqrt == 0.0 := by
  obtain ⟨s, h⟩ := beq_zero_iff.mp h
  rw [beq_zero_iff, form_sqrt, h]
  exact ⟨s, rfl⟩

theorem isFinite_sqrt_iff (h : ¬x < 0.0) : x.sqrt.isFinite ↔ x.isFinite := by
  rw [neg_iff] at h
  show (form x.sqrt).isFinite ↔ (form x).isFinite
  rcases hform : form x with (_ | _) | _ | s | ⟨_ | _, m, e, hm⟩
  case finite.positive => exact iff_of_true (two_pow_le_sqrt hform).1 rfl
  case infinity.negative | finite.negative => exact absurd (hform ▸ rfl) h
  all_goals
    rw [form_sqrt, hform]
    exact Iff.rfl

theorem sqrt_beq_zero_iff : x.sqrt == 0.0 ↔ x == 0.0 := by
  refine ⟨fun h => ?_, sqrt_of_beq_zero⟩
  rcases hform : form x with (_ | _) | _ | s | ⟨_ | _, m, e, hm⟩
  case zero => exact beq_zero_iff.mpr ⟨s, hform⟩
  case finite.positive =>
    obtain ⟨hfinite, hle⟩ := two_pow_le_sqrt hform
    have hpos : (0 : ℝ) < 2 ^ (-537 : ℤ) := by positivity
    rw [(toReal_eq_zero_iff hfinite).mpr h] at hle
    exact absurd hle (not_le.mpr hpos)
  all_goals
    rw [beq_zero_iff, form_sqrt, hform] at h
    obtain ⟨s, h⟩ := h
    cases h

theorem two_pow_le_sqrt_of_not (hneg : ¬x < 0.0) (hzero : ¬x == 0.0) (hfinite : x.isFinite) :
    2 ^ (-537 : ℤ) ≤ toReal x.sqrt := by
  obtain ⟨hinfinity, hnan⟩ := isFinite_iff.mp hfinite
  have hpos := pos_iff.mp (pos_of_not hneg hzero fun h => hnan (isNaN_iff.mp h))
  rcases hform : form x with s | _ | s | ⟨s, m, e, hm⟩ <;> rw [hform] at hpos
  case finite =>
    obtain rfl := hpos
    exact (two_pow_le_sqrt hform).2
  case infinity => exact absurd hform (hinfinity s)
  all_goals cases hpos

/-- A product of roots does not underflow: it is zero only if one of them is that of zero. -/
theorem sqrt_mul_sqrt_beq_zero_iff (hx : ¬x < 0.0) (hy : ¬y < 0.0) :
    x.sqrt * y.sqrt == 0.0 ↔ (x == 0.0 ∧ y.isFinite) ∨ (y == 0.0 ∧ x.isFinite) := by
  have hzero {x : Float} (h : x == 0.0) : toReal x.sqrt = 0 :=
    (toReal_eq_zero_iff (isFinite_of_beq_zero (sqrt_of_beq_zero h))).mpr (sqrt_of_beq_zero h)
  rw [mul_beq_zero_iff, isFinite_sqrt_iff hx, isFinite_sqrt_iff hy]
  constructor
  · rintro ⟨hxfinite, hyfinite, hle⟩
    by_contra hnot
    have hxroot := two_pow_le_sqrt_of_not hx (fun h => hnot (.inl ⟨h, hyfinite⟩)) hxfinite
    have hyroot := two_pow_le_sqrt_of_not hy (fun h => hnot (.inr ⟨h, hxfinite⟩)) hyfinite
    have hpos : (0 : ℝ) < 2 ^ (-537 : ℤ) := by positivity
    have hproduct := mul_le_mul hxroot hyroot hpos.le (hpos.le.trans hxroot)
    rw [← zpow_add₀ two_ne_zero] at hproduct
    have hle := (hproduct.trans (le_abs_self _)).trans hle
    exact absurd ((zpow_le_zpow_iff_right₀ one_lt_two).mp hle) (by decide)
  · rintro (⟨hx, hy⟩ | ⟨hy, hx⟩)
    · refine ⟨isFinite_of_beq_zero hx, hy, ?_⟩
      rw [hzero hx, zero_mul, abs_zero]
      positivity
    · refine ⟨hx, isFinite_of_beq_zero hy, ?_⟩
      rw [hzero hy, mul_zero, abs_zero]
      positivity

end Ketscript.Binary64
