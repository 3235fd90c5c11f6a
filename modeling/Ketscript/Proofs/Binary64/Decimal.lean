import Ketscript.Binary64.Reading
import Ketscript.Binary64.Scalar
import Ketscript.Proofs.Binary64.Value
import Ketscript.Proofs.Linear.Exact

/-! Decimal numbers read as binary64. A quotient is computed with enough bits for one rounding, and so is a decimal
    number of any length; it is read as the same number by every reader. -/

namespace Ketscript.Binary64
open Float.Model (Format UnpackedFloat totalExponent)
open Float.Model.UnpackedFloat

variable {x y : Float}

/-! ### Quotients -/

section Quotients
variable {m n : Nat} {e d : Int}

/-- A dividend with 53 bits more than the divisor has a quotient of at least 53 bits. -/
theorem le_log2_div (hm : 0 < m) (hn : 0 < n) (h : n.log2 + 53 ≤ m.log2) : 52 ≤ (m / n).log2 := by
  have hdivisor : n < 2 ^ (n.log2 + 1) := Nat.lt_log2_self
  have hdividend : 2 ^ (n.log2 + 53) ≤ m := (Nat.le_log2 (Nat.ne_of_gt hm)).mp h
  have hquotient : 2 ^ 52 ≤ m / n := by
    rw [Nat.le_div_iff_mul_le hn]
    calc 2 ^ 52 * n ≤ 2 ^ 52 * 2 ^ (n.log2 + 1) := Nat.mul_le_mul_left _ hdivisor.le
      _ = 2 ^ (n.log2 + 53) := by ring
      _ ≤ m := hdividend
  exact (Nat.le_log2 (Nat.ne_of_gt (lt_of_lt_of_le (by decide) hquotient))).mpr hquotient

/-- The quotient has at least 53 bits, or it has the least exponent. -/
theorem divCore_spec (hm : 0 < m) (hn : 0 < n) (e d : Int) :
    ∃ q t accuracy, divCore .binary64 m e n d = (q, t, accuracy) ∧ t ≤ grid q t ∧
      (q : ℝ) * 2 ^ t ≤ m * 2 ^ e / (n * 2 ^ d) ∧ (m : ℝ) * 2 ^ e / (n * 2 ^ d) < (q + 1) * 2 ^ t := by
  refine ⟨_, _, _, rfl, ?_⟩
  have htarget : Format.binary64.targetExponent (totalExponent m e - totalExponent n d) =
      max ((m.log2 : Int) + e - (n.log2 + d) - 53) leastExponent := by
    rw [targetExponent_eq_max, totalExponent, totalExponent]
    congr 1
    omega
  simp only [htarget]
  generalize ht : min (e - d) (max ((m.log2 : Int) + e - (n.log2 + d) - 53) leastExponent) = t
  rw [Nat.shiftLeft_eq]
  have hnreal : (0 : ℝ) < n := Nat.cast_pos.mpr hn
  have hexact : (m : ℝ) * 2 ^ e / (n * 2 ^ d) = ((m * 2 ^ (e - d - t).toNat : ℕ) : ℝ) / n * 2 ^ t := by
    have hpow : (2 : ℝ) ^ e = 2 ^ (e - d - t).toNat * 2 ^ d * 2 ^ t := by
      rw [← zpow_natCast, ← zpow_add₀ two_ne_zero, ← zpow_add₀ two_ne_zero]
      congr 1
      omega
    rw [hpow]
    push_cast
    field_simp
  have hlow := Nat.cast_div_le (α := ℝ) (m := m * 2 ^ (e - d - t).toNat) (n := n)
  have hhigh := Nat.lt_floor_add_one (((m * 2 ^ (e - d - t).toNat : ℕ) : ℝ) / n)
  rw [Nat.floor_div_eq_div] at hhigh
  refine ⟨?_, ?_, ?_⟩
  · -- Unless the target is the least exponent, the dividend has 53 bits more than the divisor.
    by_cases hleast : t ≤ leastExponent
    · exact hleast.trans (Int.le_max_right _ _)
    · have hbits : n.log2 + 53 ≤ (m * 2 ^ (e - d - t).toNat).log2 := by
        rw [log2_mul_two_pow hm]
        omega
      have hlog := le_log2_div (Nat.mul_pos hm (Nat.two_pow_pos _)) hn hbits
      simp only [grid]
      omega
  · rw [hexact]
    gcongr
  · rw [hexact]
    gcongr

theorem canonical_div_finite (hm : 0 < m) (hn : 0 < n) (e d : Int) :
    Canonical (div .binary64 (.finite .positive m e hm) (.finite .positive n d hn)) := by
  obtain ⟨q, t, accuracy, hcore, hgrid, -⟩ := divCore_spec hm hn e d
  simp only [div, hcore]
  exact canonical_roundWithAccuracy _ hgrid accuracy

theorem approximates_div (hm : 0 < m) (hn : 0 < n) (e d : Int) :
    Approximates (form (ofForm (div .binary64 (.finite .positive m e hm) (.finite .positive n d hn))))
      (m * 2 ^ e / (n * 2 ^ d)) := by
  obtain ⟨q, t, accuracy, hcore, hgrid, hlow, hhigh⟩ := divCore_spec hm hn e d
  rw [form_ofForm (canonical_div_finite hm hn e d)]
  simp only [div, hcore]
  exact approximates_roundWithAccuracy .positive hgrid hlow hhigh accuracy

end Quotients

/-! ### Whole numbers -/

/-- A form that stands for a whole number. -/
def isWhole (n : Nat) : UnpackedFloat → Bool
  | .finite .positive m e _ => -52 ≤ e && m * 2 ^ (e + 52).toNat == n * 2 ^ 52
  | _ => false

theorem exists_of_isWhole {n : Nat} {f : UnpackedFloat} (h : isWhole n f) :
    ∃ m e, ∃ hm : 0 < m, f = .finite .positive m e hm ∧ (m : ℝ) * 2 ^ e = n := by
  rcases f with _ | _ | _ | ⟨_ | _, m, e, hm⟩ <;> rw [isWhole] at h
  case finite.positive =>
    rw [Bool.and_eq_true, decide_eq_true_eq, beq_iff_eq] at h
    obtain ⟨he, heq⟩ := h
    refine ⟨m, e, hm, rfl, ?_⟩
    have hexponent : e = (e + 52).toNat - (52 : ℕ) := by omega
    rw [hexponent, zpow_sub₀ two_ne_zero, zpow_natCast, zpow_natCast, ← mul_div_assoc, div_eq_iff (by positivity)]
    exact_mod_cast heq
  all_goals cases h

theorem isWhole_powerOfTen : ∀ k : Fin Float.exactlyRepresentablePowersOfTen.size,
    isWhole (10 ^ k.val) (form Float.exactlyRepresentablePowersOfTen[k]) := by
  decide +kernel

theorem isWhole_toFloat {n : UInt64} (hpos : 0 < n.toNat) (hn : n.toNat < 2 ^ 53) :
    isWhole n.toNat (form n.toFloat) := by
  have hlog : n.toNat.log2 < 53 := (Nat.log2_lt (Nat.ne_of_gt hpos)).mpr hn
  have hexponent : ((n.toNat.log2 : Int) - 52 + 52).toNat = n.toNat.log2 := by omega
  rw [form_toFloat_eq hpos hn, isWhole, hexponent, Nat.mul_assoc, ← Nat.pow_add,
    Nat.sub_add_cancel (Nat.le_of_lt_succ hlog), beq_self_eq_true, Bool.and_true, decide_eq_true_eq]
  omega

/-! ### Decimal numbers -/

/-- A number below a quarter of the least positive one is read as zero at once. -/
theorem approximates_tiny {n k : Nat} (h : 2 ^ 11 + n.log2 < k) : Approximates (.zero .positive) ((n : ℝ) / 10 ^ k) := by
  have hnonneg : (0 : ℝ) ≤ n / 10 ^ k := by positivity
  have htiny : (n : ℝ) / 10 ^ k ≤ 2 ^ leastExponent := by
    have hn : (n : ℝ) ≤ 2 ^ (n.log2 + 1) := by exact_mod_cast Nat.lt_log2_self.le
    have hpow : (2 : ℝ) ^ (3 * k) ≤ 10 ^ k := by
      rw [pow_mul]
      gcongr
      norm_num
    calc (n : ℝ) / 10 ^ k ≤ 2 ^ (n.log2 + 1) / 2 ^ (3 * k) := by gcongr
      _ = 2 ^ ((n.log2 + 1 : ℕ) - (3 * k : ℕ) : ℤ) := by rw [zpow_sub₀ two_ne_zero, zpow_natCast, zpow_natCast]
      _ ≤ 2 ^ leastExponent := zpow_le_zpow_right₀ one_le_two (by simp only [leastExponent]; omega)
  refine ⟨fun _ => rfl, fun _ => ?_⟩
  rw [value_zero, zero_sub, abs_neg, abs_of_nonneg hnonneg]
  exact htiny.trans (le_add_of_nonneg_left (by positivity))

theorem approximates_product {m : Nat} {e : Int} {hm : 0 < m} (he : e ≤ grid m e) :
    Approximates (form (ofForm (mul .binary64 (.finite .positive m e hm) (.finite .positive 1 0 Nat.one_pos))))
      (m * 2 ^ e) := by
  have hproduct : mul .binary64 (.finite .positive m e hm) (.finite .positive 1 0 Nat.one_pos) =
      roundWithAccuracy .binary64 .positive m e .exact := by
    rw [mul, Nat.mul_one, Int.add_zero]
    rfl
  rw [hproduct, form_ofForm (canonical_roundWithAccuracy _ he _)]
  refine approximates_roundWithAccuracy .positive he le_rfl ?_ .exact
  gcongr
  exact lt_add_one _

/-- The way by the exact quotient, for numbers of any length. -/
theorem approximates_ofScientific {n : Nat} (hn : 0 < n) (k : Nat) :
    Approximates (form (ofForm (UnpackedFloat.ofScientific .binary64 n (-k)))) (n / 10 ^ k) := by
  have hsmall : ¬-(k : Int) > 2 ^ Format.binary64.exponentBits := by
    show ¬-(k : Int) > 2 ^ 11
    omega
  rw [UnpackedFloat.ofScientific, dif_neg (Nat.ne_of_gt hn), if_neg hsmall]
  split
  · rename_i htiny
    refine approximates_tiny ?_
    have htiny : -(k : Int) < -(2 ^ 11 + n.log2) := htiny
    omega
  split
  · obtain rfl : k = 0 := by omega
    have hgrid : (-53 : Int) ≤ grid (n <<< 53) (-53) := by
      rw [Nat.shiftLeft_eq, grid, log2_mul_two_pow hn]
      omega
    have hexact : (n : ℝ) / (10 : ℝ) ^ 0 = ((n <<< 53 : ℕ) : ℝ) * 2 ^ (-53 : ℤ) := by
      rw [Nat.shiftLeft_eq, pow_zero, div_one]
      push_cast
      rw [mul_assoc]
      norm_num
    rw [hexact]
    exact approximates_product hgrid
  · have hpow : (10 : ℝ) ^ k = ((10 ^ k : ℕ) : ℝ) * 2 ^ (0 : ℤ) := by
      push_cast
      ring
    have hexponent : (- -(k : Int)).toNat = k := by omega
    have hcast : (n : ℝ) = n * 2 ^ (0 : ℤ) := by ring
    simp only [hexponent]
    rw [hpow, hcast]
    exact approximates_div hn (Nat.pow_pos (by decide)) 0 0

/-- A decimal number is read with one rounding. -/
theorem approximates_ofDecimal (n k : Nat) :
    Approximates (form (RealScalar.ofDecimal n k)) (RealScalar.ofDecimal n k) := by
  show Approximates (form (Float.ofScientific n true k)) (n / 10 ^ k)
  rcases Nat.eq_zero_or_pos n with rfl | hn
  · have hform : form (Float.ofScientific 0 true k) = .zero .positive := by
      rw [Float.ofScientific]
      split
      · rename_i hfast
        obtain ⟨l, d, hl, hform, -⟩ := exists_of_isWhole (isWhole_powerOfTen ⟨k, Nat.lt_succ_of_le hfast.2⟩)
        have hquotient : div .binary64 (form (0 : Nat).toUInt64.toFloat) (.finite .positive l d hl) = .zero .positive :=
          rfl
        rw [← hform] at hquotient
        exact congrArg (fun f => form (ofForm f)) hquotient
      · show form (ofForm (UnpackedFloat.ofScientific .binary64 0 (-k))) = _
        rw [UnpackedFloat.ofScientific, dif_pos rfl]
        rfl
    rw [hform, Nat.cast_zero, zero_div]
    exact approximates_zero .positive
  rw [Float.ofScientific]
  split
  · rename_i hfast
    have htoNat : n.toUInt64.toNat = n := Nat.mod_eq_of_lt (Nat.lt_trans hfast.1 (by decide))
    obtain ⟨m, e, hm, hform, hvalue⟩ := exists_of_isWhole (isWhole_toFloat (n := n.toUInt64) (by omega) (by omega))
    obtain ⟨l, d, hl, hform', hvalue'⟩ := exists_of_isWhole (isWhole_powerOfTen ⟨k, Nat.lt_succ_of_le hfast.2⟩)
    rw [htoNat] at hvalue
    rw [Nat.cast_pow, Nat.cast_ofNat] at hvalue'
    have hquotient := approximates_div hm hl e d
    rw [← hform, ← hform', hvalue, hvalue'] at hquotient
    exact hquotient
  · exact approximates_ofScientific hn k

/-- A whole number is read the same way with and without an exponent sign. -/
theorem ofScientific_whole (n : Nat) : Float.ofScientific n false 0 = Float.ofScientific n true 0 := by
  rw [Float.ofScientific, Float.ofScientific]
  split
  · rename_i hfast
    show n.toUInt64.toFloat * 1.0 = n.toUInt64.toFloat / 1.0
    rw [Binary64.mul_one]
    rcases Nat.eq_zero_or_pos n with rfl | hn
    · rfl
    · have htoNat : n.toUInt64.toNat = n := Nat.mod_eq_of_lt (Nat.lt_trans hfast.1 (by decide))
      obtain ⟨m, e, hm, hform, hfull, hlow, hhigh⟩ := form_toFloat (n := n.toUInt64) (by omega) (by omega)
      have hquotient := form_div_two_pow hform form_one hfull (by simp only [leastExponent]; omega)
        (by simp only [greatestExponent]; omega)
      apply form_injective
      rw [hform, hquotient]
      congr 1
      omega
  · rfl

theorem ofScientific_neg (n k : Nat) : ofScientific n (0 - k) = Float.ofScientific n true k := by
  rcases Nat.eq_zero_or_pos k with rfl | hk
  · exact ofScientific_whole n
  · rw [ofScientific, decide_eq_true (show (0 - k : Int) < 0 by omega), show (0 - k : Int).natAbs = k by omega]

/-! ### Texts -/

theorem ne_of_isDigit {c d : Char} (hc : c.isDigit) (hd : d.isDigit = false) : c ≠ d := by
  rintro rfl
  rw [hc] at hd
  cases hd

section Texts
variable {whole rest places : List Char}

/-- What is a digit or a point is not a mark of an exponent, and no sign or letter. -/
theorem isDigit_or_point (hdigits : (whole ++ places).all Char.isDigit)
    (hrest : rest = '.' :: places ∨ (rest = [] ∧ places = [])) {c : Char} (hc : c ∈ whole ++ rest) :
    c.isDigit ∨ c = '.' := by
  rw [List.all_eq_true] at hdigits
  rcases List.mem_append.mp hc with hc | hc
  · exact .inl (hdigits c (List.mem_append_left places hc))
  · rcases hrest with rfl | ⟨rfl, -⟩
    · rcases List.mem_cons.mp hc with rfl | hc
      · exact .inr rfl
      · exact .inl (hdigits c (List.mem_append_right whole hc))
    · cases hc

/-- Digits with a point among them are read without an exponent. -/
theorem unsigned?_eq (hdigits : (whole ++ places).all Char.isDigit) (hne : whole ++ places ≠ [])
    (hrest : rest = '.' :: places ∨ (rest = [] ∧ places = [])) : unsigned? (whole ++ rest) =
      some (Float.ofScientific (Text.valueOfDigits 10 (whole ++ places)) true places.length) := by
  have hmark : ∀ c ∈ whole ++ rest, (!(c == 'e' || c == 'E')) = true := by
    intro c hc
    rcases isDigit_or_point hdigits hrest hc with hdigit | rfl
    · simpa using ⟨ne_of_isDigit hdigit (by decide), ne_of_isDigit hdigit (by decide)⟩
    · decide
  have hpoint : ∀ c ∈ whole, (c != '.') = true := by
    intro c hc
    simpa using ne_of_isDigit (List.all_eq_true.mp hdigits c (List.mem_append_left places hc)) (by decide)
  have hplaces : (whole ++ rest).takeWhile (· != '.') = whole ∧
      ((whole ++ rest).dropWhile (· != '.')).drop 1 = places := by
    rw [List.takeWhile_append_of_pos hpoint, List.dropWhile_append_of_pos hpoint]
    rcases hrest with rfl | ⟨rfl, rfl⟩ <;> simp
  have hnonempty : (whole.isEmpty && places.isEmpty) = false := by
    cases whole <;> simp_all
  simp only [unsigned?, List.takeWhile_eq_self_iff.mpr hmark, List.dropWhile_eq_nil_iff.mpr hmark, hplaces.1, hplaces.2,
    hnonempty, hdigits, ← ofScientific_neg]
  rfl

/-- Such a text is not one of the signed or named numbers. -/
theorem ofText?_eq (hdigits : (whole ++ places).all Char.isDigit) (hne : whole ++ places ≠ [])
    (hrest : rest = '.' :: places ∨ (rest = [] ∧ places = [])) : ofText? (String.ofList (whole ++ rest)) =
      some (Float.ofScientific (Text.valueOfDigits 10 (whole ++ places)) true places.length) := by
  have hnone {c : Char} (hc : c.isDigit = false ∧ c ≠ '.') : c ∉ whole ++ rest := by
    intro hmem
    rcases isDigit_or_point hdigits hrest hmem with hdigit | rfl
    · rw [hc.1] at hdigit
      cases hdigit
    · exact hc.2 rfl
  have hread := unsigned?_eq hdigits hne hrest
  rw [ofText?, String.toList_ofList]
  generalize whole ++ rest = cs at *
  split
  · exact absurd List.mem_cons_self (hnone (by decide))
  · exact absurd List.mem_cons_self (hnone (by decide))
  · exact absurd List.mem_cons_self (hnone (by decide))
  · exact absurd List.mem_cons_self (hnone (by decide))
  · exact absurd List.mem_cons_self (hnone (by decide))
  · exact hread

end Texts
end Ketscript.Binary64
