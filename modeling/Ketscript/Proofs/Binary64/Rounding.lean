import Ketscript.Proofs.Binary64.Form

/-! Rounding to binary64. The bits of a mantissa below its 53 leading ones are cut off, or those below the least
    exponent, and the last bit that is left is rounded by what was cut off. So the result is zero, or it is in
    canonical form; a number that has such a form is kept; and a number that is not zero becomes zero only
    below the least exponent. -/

namespace Ketscript.Binary64
open Float.Model (Format UnpackedFloat totalExponent)
open Float.Model.UnpackedFloat

/-! ### The exponent to round to -/

/-- The exponent at which 53 bits of a mantissa are left, or the least exponent. -/
def grid (m : Nat) (e : Int) : Int := max (m.log2 + e - 52) leastExponent

theorem targetExponent_eq (m : Nat) (e : Int) :
    Format.binary64.targetExponent (totalExponent m e) = grid m e := by
  show max ((m.log2 : Int) + 1 + e - 53) (-1074) = max (m.log2 + e - 52) (-1074)
  omega

theorem log2_mul_two_pow {m : Nat} (hm : 0 < m) (k : Nat) : (m * 2 ^ k).log2 = m.log2 + k := by
  induction k with
  | zero => simp
  | succ k ih =>
    have hpos : m * 2 ^ k ≠ 0 := Nat.ne_of_gt (Nat.mul_pos hm (Nat.two_pow_pos k))
    rw [Nat.pow_succ, ← Nat.mul_assoc, Nat.mul_comm, Nat.log2_two_mul hpos, ih, Nat.add_assoc]

theorem grid_mul_two_pow {m : Nat} (hm : 0 < m) (e : Int) (k : Nat) : grid (m * 2 ^ k) (e - k) = grid m e := by
  simp only [grid, log2_mul_two_pow hm]
  omega

/-- Above the least exponent a mantissa that is not too far left has 53 bits to keep. -/
theorem grid_eq_or {m : Nat} {e : Int} (h : e ≤ grid m e) :
    grid m e = leastExponent ∨ (0 < m ∧ grid m e = m.log2 + e - 52) := by
  rcases Nat.eq_zero_or_pos m with rfl | hm <;> simp only [grid, Nat.log2_zero] at *
  · omega
  · omega

theorem grid_eq_self {m : Nat} {e : Int} (hpos : 0 < m) (h : Canonical (.finite .positive m e hpos)) :
    grid m e = e := by
  obtain ⟨hhigh, hleast, hfull⟩ := h
  have hlog : m.log2 < 53 := (Nat.log2_lt (Nat.ne_of_gt hpos)).mpr hhigh
  simp only [grid, leastExponent] at *
  rcases hfull with hlow | rfl
  · have hlog : m.log2 = 52 := log2_eq_iff.mpr ⟨hlow, hhigh⟩
    omega
  · omega

/-! ### The mantissa that is left -/

theorem mantissa_shiftRight (em : ExtendedMantissa) (k : Nat) : (em >>> k).mantissa = em.mantissa / 2 ^ k := by
  induction k with
  | zero => simp [HShiftRight.hShiftRight, Nat.repeat]
  | succ k ih =>
    show (em >>> k).mantissa / 2 = _
    rw [ih, Nat.div_div_eq_div_mul, Nat.pow_succ]

theorem shiftRight_exact (m k : Nat) :
    ExtendedMantissa.ofMantissaAndAccuracy (m * 2 ^ k) .exact >>> k = .ofMantissaAndAccuracy m .exact := by
  induction k generalizing m with
  | zero => simp [HShiftRight.hShiftRight, Nat.repeat]
  | succ k ih =>
    show (ExtendedMantissa.ofMantissaAndAccuracy (m * 2 ^ (k + 1)) .exact >>> k).shiftRightOne = _
    rw [Nat.pow_succ, Nat.mul_comm (2 ^ k), ← Nat.mul_assoc, ih]
    simp [ExtendedMantissa.shiftRightOne, ExtendedMantissa.ofMantissaAndAccuracy]

/-- What is left of a mantissa without its last `k` bits. -/
def rounded (m : Nat) (accuracy : Accuracy) (k : Nat) : Nat :=
  (ExtendedMantissa.ofMantissaAndAccuracy m accuracy >>> k).roundedMantissa

theorem mantissa_ofMantissaAndAccuracy (m : Nat) (accuracy : Accuracy) :
    (ExtendedMantissa.ofMantissaAndAccuracy m accuracy).mantissa = m := by
  rcases accuracy with _ | ⟨_ | _ | _⟩ <;> rfl

theorem rounded_bounds (m : Nat) (accuracy : Accuracy) (k : Nat) :
    m / 2 ^ k ≤ rounded m accuracy k ∧ rounded m accuracy k ≤ m / 2 ^ k + 1 := by
  rw [rounded, ← congrArg (· / 2 ^ k) (mantissa_ofMantissaAndAccuracy m accuracy), ← mantissa_shiftRight]
  rcases ExtendedMantissa.ofMantissaAndAccuracy m accuracy >>> k with ⟨n, _ | _, _ | _⟩ <;>
    simp [ExtendedMantissa.roundedMantissa, ExtendedMantissa.accuracy, Accuracy.roundToNearestEven]
  omega

theorem rounded_exact (m k : Nat) : rounded (m * 2 ^ k) .exact k = m := by
  rw [rounded, shiftRight_exact]
  rfl

/-! ### The results of rounding -/

/-- A form that stands for the sign and a mantissa of up to `2 ^ 53` with an exponent. -/
inductive Rounds (s : Sign) (r : Nat) (e : Int) : UnpackedFloat → Prop
  | zero (h : r = 0) : Rounds s r e (.zero s)
  | kept (hpos : 0 < r) (h : r < 2 ^ 53) : Rounds s r e (.finite s r e hpos)
  | carried (h : r = 2 ^ 53) : Rounds s r e (.finite s (2 ^ 52) (e + 1) (Nat.two_pow_pos 52))

theorem shiftToTargetExponent_eq (m : Nat) (e : Int) (accuracy : Accuracy) :
    shiftToTargetExponent .binary64 m e accuracy =
      (ExtendedMantissa.ofMantissaAndAccuracy m accuracy >>> (grid m e - e).toNat, e + (grid m e - e).toNat) := by
  simp only [shiftToTargetExponent, targetExponent_eq]
  rfl

theorem rounded_le (m : Nat) (e : Int) (accuracy : Accuracy) : rounded m accuracy (grid m e - e).toNat ≤ 2 ^ 53 := by
  -- What is left has at most 53 bits, and rounding adds at most one unit.
  refine Nat.le_trans (rounded_bounds m accuracy _).2 (Nat.succ_le_of_lt ?_)
  rw [Nat.div_lt_iff_lt_mul (Nat.two_pow_pos _), ← Nat.pow_add]
  refine Nat.lt_of_lt_of_le Nat.lt_log2_self (Nat.pow_le_pow_right Nat.two_pos ?_)
  simp only [grid]
  omega

theorem rounds_roundWithAccuracy (s : Sign) (m : Nat) (e : Int) (accuracy : Accuracy) :
    let k := (grid m e - e).toNat
    Rounds s (rounded m accuracy k) (e + k) (roundWithAccuracy .binary64 s m e accuracy) := by
  intro k
  have hle : rounded m accuracy k ≤ 2 ^ 53 := rounded_le m e accuracy
  have hleast : leastExponent ≤ e + k := by
    simp only [k, grid]
    omega
  -- The mantissa is shifted a second time, in case rounding has carried it to 54 bits.
  have hround : roundWithAccuracy .binary64 s m e accuracy =
      let final := shiftToTargetExponent .binary64 (rounded m accuracy k) (e + k) .exact
      if h : final.1.mantissa = 0 then .zero s else .finite s final.1.mantissa final.2 (Nat.pos_of_ne_zero h) := by
    simp only [roundWithAccuracy, shiftToTargetExponent_eq m e]
    rfl
  rw [hround]
  simp only [shiftToTargetExponent_eq, mantissa_shiftRight, mantissa_ofMantissaAndAccuracy]
  generalize rounded m accuracy k = r at *
  by_cases hzero : r = 0
  · subst hzero
    simp only [Nat.zero_div]
    exact .zero rfl
  have hpos : 0 < r := Nat.pos_of_ne_zero hzero
  by_cases hlt : r < 2 ^ 53
  · -- A mantissa of 53 bits is not shifted again.
    have hgrid : (grid r (e + k) - (e + k)).toNat = 0 := by
      have hlog : r.log2 < 53 := (Nat.log2_lt hzero).mpr hlt
      simp only [grid]
      omega
    simp only [hgrid, Nat.pow_zero, Nat.div_one, dif_neg hzero]
    simpa using Rounds.kept hpos hlt
  · obtain rfl : r = 2 ^ 53 := Nat.le_antisymm hle (Nat.not_lt.mp hlt)
    have hgrid : (grid (2 ^ 53) (e + k) - (e + k)).toNat = 1 := by
      simp only [grid, Nat.log2_two_pow]
      omega
    simp only [hgrid]
    exact Rounds.carried rfl

/-- Rounding gives a canonical form to what is not too far left for it. -/
theorem canonical_roundWithAccuracy (s : Sign) {m : Nat} {e : Int} (h : e ≤ grid m e) (accuracy : Accuracy) :
    Canonical (roundWithAccuracy .binary64 s m e accuracy) := by
  have hrounds := rounds_roundWithAccuracy s m e accuracy
  have hbounds := rounded_bounds m accuracy (grid m e - e).toNat
  have hgrid : e + ((grid m e - e).toNat : Int) = grid m e := by omega
  simp only [hgrid] at hrounds
  have hleast : leastExponent ≤ grid m e := Int.le_max_right _ _
  generalize roundWithAccuracy .binary64 s m e accuracy = f at hrounds
  cases hrounds with
  | zero => trivial
  | kept _ hlt =>
    refine ⟨hlt, hleast, ?_⟩
    rcases grid_eq_or h with heq | ⟨hpos, heq⟩
    · exact .inr heq
    · -- Above the least exponent 53 bits are left before the last one is rounded.
      have hk : m.log2 = 52 + (grid m e - e).toNat := by omega
      have hlow : 2 ^ 52 ≤ m / 2 ^ (grid m e - e).toNat := by
        rw [Nat.le_div_iff_mul_le (Nat.two_pow_pos _), ← Nat.pow_add, ← hk]
        exact Nat.log2_self_le (Nat.ne_of_gt hpos)
      exact .inl (Nat.le_trans hlow hbounds.1)
  | carried => exact ⟨by decide, by omega, .inl (Nat.le_refl _)⟩

/-- A number with a canonical form is kept, however far left its mantissa is written. -/
theorem roundWithAccuracy_exact (s : Sign) {m : Nat} {e : Int} {hpos : 0 < m} (h : Canonical (.finite s m e hpos))
    (k : Nat) : roundWithAccuracy .binary64 s (m * 2 ^ k) (e - k) .exact = .finite s m e hpos := by
  have hrounds := rounds_roundWithAccuracy s (m * 2 ^ k) (e - k) .exact
  have hk : (e - (e - k)).toNat = k := by omega
  simp only [grid_mul_two_pow hpos, grid_eq_self hpos h, hk, rounded_exact, Int.sub_add_cancel] at hrounds
  obtain ⟨hhigh, -, -⟩ := h
  generalize roundWithAccuracy .binary64 s (m * 2 ^ k) (e - k) .exact = f at hrounds
  cases hrounds with
  | zero h => omega
  | kept => rfl
  | carried h => omega

/-- A number becomes zero only if it is written below the least exponent. -/
theorem roundWithAccuracy_ne_zero (s s' : Sign) {m : Nat} {e : Int} (hpos : 0 < m) (h : leastExponent ≤ e)
    (accuracy : Accuracy) : roundWithAccuracy .binary64 s m e accuracy ≠ .zero s' := by
  have hrounds := rounds_roundWithAccuracy s m e accuracy
  have hbounds := rounded_bounds m accuracy (grid m e - e).toNat
  have hk : (grid m e - e).toNat ≤ m.log2 := by
    simp only [grid]
    omega
  have hleft : 0 < m / 2 ^ (grid m e - e).toNat :=
    Nat.div_pos ((Nat.le_log2 (Nat.ne_of_gt hpos)).mp hk) (Nat.two_pow_pos _)
  intro hzero
  rw [hzero] at hrounds
  cases hrounds with
  | zero h => omega

/-! ### Numbers of any exponent -/

theorem round_eq (s : Sign) (m : Nat) (e : Int) :
    let k := (e - grid m e).toNat
    UnpackedFloat.round .binary64 s m e = roundWithAccuracy .binary64 s (m * 2 ^ k) (e - k) .exact := by
  simp only [UnpackedFloat.round, decreaseExponent, targetExponent_eq, Nat.shiftLeft_eq]

theorem canonical_round (s : Sign) {m : Nat} (hpos : 0 < m) (e : Int) :
    Canonical (UnpackedFloat.round .binary64 s m e) := by
  rw [round_eq]
  refine canonical_roundWithAccuracy s ?_ .exact
  rw [grid_mul_two_pow hpos]
  omega

theorem round_ne_zero (s s' : Sign) {m : Nat} {e : Int} (hpos : 0 < m) (h : leastExponent ≤ e) :
    UnpackedFloat.round .binary64 s m e ≠ .zero s' := by
  rw [round_eq]
  refine roundWithAccuracy_ne_zero s s' (Nat.mul_pos hpos (Nat.two_pow_pos _)) ?_ .exact
  simp only [grid]
  omega

/-- A number whose mantissa has at most 53 bits is kept, if it is written no further left than it must be. -/
theorem round_exact (s : Sign) {m : Nat} {e : Int} (hpos : 0 < m) (h : grid m e ≤ e) :
    let k := (e - grid m e).toNat
    UnpackedFloat.round .binary64 s m e = .finite s (m * 2 ^ k) (grid m e) (Nat.mul_pos hpos (Nat.two_pow_pos k)) := by
  intro k
  have hmpos : 0 < m * 2 ^ k := Nat.mul_pos hpos (Nat.two_pow_pos k)
  have hlog : (m * 2 ^ k).log2 = m.log2 + k := log2_mul_two_pow hpos k
  have hexponent : e - (k : Int) = grid m e := by
    simp only [k]
    omega
  have hcanonical : Canonical (.finite s (m * 2 ^ k) (grid m e) hmpos) := by
    refine ⟨(Nat.log2_lt (Nat.ne_of_gt hmpos)).mp ?_, Int.le_max_right _ _, ?_⟩
    · simp only [grid] at *
      omega
    · by_cases hleast : grid m e = leastExponent
      · exact .inr hleast
      · refine .inl ((Nat.le_log2 (Nat.ne_of_gt hmpos)).mp ?_)
        simp only [grid] at *
        omega
  have hexact := roundWithAccuracy_exact s hcanonical 0
  rw [round_eq, hexponent]
  simpa using hexact

end Ketscript.Binary64
