import Ketscript.Binary64.Circle
import Ketscript.Proofs.Binary64.Value

/-! Cosine and sine of binary64 angles. Whatever the system says they are, the checked values lie on the unit circle:
    the series are those of the exponential function at an imaginary number, whole numbers of units and of quarter
    turns are cut off with small errors, and what is returned deviates by no more than a rounding. -/

namespace Ketscript.Binary64
open Float.Model (Format UnpackedFloat totalExponent)
open Float.Model.UnpackedFloat

/-! ### Views -/

/-- What the bits of a number show of its form. -/
def View.ofForm : UnpackedFloat → View
  | .notANumber => .nan
  | .infinity s => .infinite (s == .negative)
  | .zero s => .finite (s == .negative) 0 leastExponent
  | .finite s m e _ => .finite (s == .negative) m e

theorem toNat_unpackExponent (b : BitVec Format.binary64.numBits) :
    (unpackExponent b).toNat = (b.toNat >>> 52) % (1 <<< 11) := by
  simp [unpackExponent, BitVec.extractLsb, BitVec.extractLsb'_toNat]

theorem toNat_unpackMantissa (b : BitVec Format.binary64.numBits) :
    (unpackMantissa b).toNat = b.toNat % (1 <<< 52) := by
  simp [unpackMantissa, BitVec.extractLsb]

theorem sign_unpackSign (b : BitVec Format.binary64.numBits) :
    (Sign.ofBitVec (unpackSign b) == .negative) = b.toNat.testBit 63 := by
  have hbit : unpackSign b = BitVec.ofBool (b.toNat.testBit 63) := by
    ext i hi
    obtain rfl : i = 0 := by omega
    simp [unpackSign]
    rfl
  rw [hbit]
  cases b.toNat.testBit 63 <;> rfl

theorem view_eq (x : Float) : view x = .ofForm (form x) := by
  have hform : form x = unpack .binary64 x.toBits.toBitVec := rfl
  have hbits : x.toBits.toNat = x.toBits.toBitVec.toNat := rfl
  obtain ⟨b, hb⟩ : ∃ b : BitVec Format.binary64.numBits, x.toBits.toBitVec = b := ⟨_, rfl⟩
  rw [hform, view, hbits, hb]
  simp only [← sign_unpackSign, ← toNat_unpackExponent, ← toNat_unpackMantissa]
  obtain ⟨s, e, m, rfl⟩ : ∃ s e m, b = packComponents .binary64 s e m := ⟨_, _, _, (components_unpack b).symm⟩
  rw [unpackSign_components, unpackExponent_packComponents, unpackMantissa_packComponents, ofBitVec_toBitVec]
  have hpositive {n : Nat} {v : BitVec n} (h : v ≠ 0#n) : 0 < v.toNat :=
    Nat.pos_of_ne_zero fun hzero => h (BitVec.eq_of_toNat_eq (by simpa using hzero))
  by_cases hones : e = -1#11
  · subst hones
    rw [if_pos (by decide)]
    by_cases hzero : m = 0#52
    · subst hzero
      exact (congrArg View.ofForm (unpack_pack_infinity s)).symm
    · have hnan : unpack .binary64 (packComponents .binary64 s (-1#11) m) = .notANumber := by
        simp only [unpack, unpackMantissa_packComponents, unpackExponent_packComponents]
        rw [if_pos trivial, if_neg hzero]
      rw [hnan, if_neg (hpositive hzero).ne']
      rfl
  · have hmax : e.toNat ≠ 1 <<< 11 - 1 := fun h => hones (BitVec.eq_of_toNat_eq h)
    rw [if_neg hmax]
    by_cases hzero : e = 0#11
    · subst hzero
      rw [if_pos (by decide)]
      by_cases hmantissa : m = 0#52
      · subst hmantissa
        cases s <;> rfl
      · rw [unpack_subnormal s (hpositive hmantissa)]
        rfl
    · have hlt : e.toNat < 2 ^ 11 := e.isLt
      rw [if_neg (hpositive hzero).ne', unpack_normal s (hpositive hzero) (by omega), View.ofForm]
      congr 1
      simp only [leastExponent]
      omega

theorem toReal_of_view {x : Float} {negative : Bool} {m : Nat} {e : Int} (h : view x = .finite negative m e) :
    x.isFinite ∧ leastExponent ≤ e ∧ toReal x = applySign (if negative then .negative else .positive) (m * 2 ^ e) := by
  have hcanonical := canonical_form x
  rw [view_eq] at h
  show (form x).isFinite ∧ _ ∧ value (form x) = _
  generalize form x = f at *
  rcases f with s | _ | s | ⟨s, n, d, hn⟩ <;> cases h
  · refine ⟨rfl, le_rfl, ?_⟩
    rw [value_zero, Nat.cast_zero, zero_mul]
    cases s
    · exact neg_zero.symm
    · rfl
  · refine ⟨rfl, hcanonical.2.1, ?_⟩
    cases s <;> rfl

namespace FixedPoint
open Finset

/-! ### The series -/

/-- The series for the term one, summed without rounding. -/
noncomputable def taylor (y : ℝ) : (n k : Nat) → ℝ
  | 0, _ => 0
  | n + 1, k => 1 - y / ((k + 1) * (k + 2) : ℕ) * taylor y n (k + 2)

theorem taylor_succ (y : ℝ) (n k : Nat) :
    taylor y (n + 1) k = 1 - y / ((k + 1) * (k + 2)) * taylor y n (k + 2) := by
  rw [taylor]
  push_cast
  rfl

theorem factor_bounds {y : ℝ} (hy : y ∈ Set.Icc (0 : ℝ) 1) (k : Nat) :
    y / ((k + 1) * (k + 2)) ∈ Set.Icc (0 : ℝ) (1 / 2) := by
  have hk : (2 : ℝ) ≤ (k + 1) * (k + 2) := by
    have hk : (0 : ℝ) ≤ k := Nat.cast_nonneg k
    nlinarith
  refine ⟨div_nonneg hy.1 (by positivity), ?_⟩
  exact div_le_div₀ zero_le_one hy.2 two_pos hk

theorem abs_taylor_le {y : ℝ} (hy : y ∈ Set.Icc (0 : ℝ) 1) (n k : Nat) : |taylor y n k| ≤ 2 := by
  induction n generalizing k with
  | zero => simp [taylor]
  | succ n ih =>
    obtain ⟨hlow, hhigh⟩ := factor_bounds hy k
    rw [taylor_succ]
    calc |1 - y / ((k + 1) * (k + 2)) * taylor y n (k + 2)|
        ≤ |1| + |y / ((k + 1) * (k + 2))| * |taylor y n (k + 2)| := by
          rw [← abs_mul]
          exact abs_sub _ _
      _ ≤ 1 + 1 / 2 * 2 := by
          rw [abs_one, abs_of_nonneg hlow]
          gcongr
          exact ih _
      _ = 2 := by norm_num

theorem unit_pos : (0 : ℝ) < unit := Nat.cast_pos.mpr (by decide +kernel)

theorem abs_div_sub_le (a b : Nat) : |(a : ℝ) / b - (a / b : ℕ)| ≤ 1 := by
  have hlow := Nat.cast_div_le (α := ℝ) (m := a) (n := b)
  have hhigh := Nat.lt_floor_add_one ((a : ℝ) / b)
  rw [Nat.floor_div_eq_div] at hhigh
  rw [abs_le]
  constructor <;> linarith

/-- Each term is cut off by less than a unit, and what follows it multiplies this by at most two. -/
theorem abs_series_sub_le {y : Nat} (hy : y ≤ unit) (n term k : Nat) :
    |(series y n term k : ℝ) - term * taylor (y / unit) n k| ≤ 2 * n := by
  have hunit := unit_pos
  have hmem : (y / unit : ℝ) ∈ Set.Icc (0 : ℝ) 1 :=
    ⟨div_nonneg (Nat.cast_nonneg y) hunit.le, (div_le_one hunit).mpr (Nat.cast_le.mpr hy)⟩
  induction n generalizing term k with
  | zero => simp [series, taylor]
  | succ n ih =>
    rw [series]
    split
    · rename_i hzero
      subst hzero
      simp only [Int.cast_zero, Nat.cast_zero, zero_mul, sub_zero, abs_zero]
      exact mul_nonneg zero_le_two (Nat.cast_nonneg _)
    · have hstep := ih (term * y / unit / ((k + 1) * (k + 2))) (k + 2)
      have hbound := abs_taylor_le hmem n (k + 2)
      rw [taylor_succ]
      generalize taylor (y / unit : ℝ) n (k + 2) = r at *
      have hfloor : |((term * y / unit / ((k + 1) * (k + 2)) : ℕ) : ℝ) -
          term * (y / unit / ((k + 1) * (k + 2)))| ≤ 1 := by
        have hexact : (term : ℝ) * (y / unit / ((k + 1) * (k + 2))) =
            ((term * y : ℕ) : ℝ) / ((unit * ((k + 1) * (k + 2)) : ℕ) : ℝ) := by
          push_cast
          field_simp
        rw [hexact, Nat.div_div_eq_div_mul, abs_sub_comm]
        exact abs_div_sub_le _ _
      generalize (term * y / unit / ((k + 1) * (k + 2)) : ℕ) = t at *
      generalize (y / unit / ((k + 1) * (k + 2)) : ℝ) = c at *
      have hrest : |((t : ℝ) - term * c) * r| ≤ 1 * 2 := by
        rw [abs_mul]
        exact mul_le_mul hfloor hbound (abs_nonneg r) zero_le_one
      have hsplit : (((term : Int) - series y n t (k + 2) : Int) : ℝ) - term * (1 - c * r) =
          -(series y n t (k + 2) - t * r) - (t - term * c) * r := by
        push_cast
        ring
      rw [hsplit]
      refine (abs_sub _ _).trans ?_
      rw [abs_neg]
      push_cast
      linarith

/-- Even and odd terms of the exponential series make up the two series. -/
theorem taylor_add_taylor {y : ℝ} {z : ℂ} (hz : z ^ 2 = -y) (n k : Nat) :
    (taylor y n k : ℂ) + z / (k + 1) * taylor y n (k + 1) =
      ∑ j ∈ range (2 * n), z ^ j / ((k + 1).ascFactorial j : ℂ) := by
  induction n generalizing k with
  | zero => simp [taylor]
  | succ n ih =>
    have hfactorial (j : Nat) : ((k + 1).ascFactorial (j + 2) : ℂ) =
        (k + 1) * (k + 2) * ((k + 2 + 1).ascFactorial j : ℂ) := by
      have hstep (i j : Nat) : i.ascFactorial (j + 1) = i * (i + 1).ascFactorial j := by
        rw [Nat.succ_ascFactorial, Nat.ascFactorial_succ]
      rw [hstep, hstep]
      push_cast
      ring
    have hterm (j : Nat) : z ^ (j + 1 + 1) / ((k + 1).ascFactorial (j + 1 + 1) : ℂ) =
        -y / ((k + 1) * (k + 2)) * (z ^ j / ((k + 2 + 1).ascFactorial j : ℂ)) := by
      rw [hfactorial, ← hz, pow_add z j 2, mul_comm (z ^ j), mul_div_mul_comm]
    have hk1 : (k : ℂ) + 1 ≠ 0 := Nat.cast_add_one_ne_zero k
    have hk2 : (k : ℂ) + 2 ≠ 0 := by exact_mod_cast (Nat.succ_ne_zero (k + 1))
    rw [show 2 * (n + 1) = 2 * n + 1 + 1 by ring, sum_range_succ', sum_range_succ']
    simp only [hterm, ← mul_sum, ← ih]
    simp only [taylor_succ, Nat.ascFactorial_zero, Nat.ascFactorial_succ, Nat.add_right_comm k 2 1]
    push_cast
    have hk3 : (k : ℂ) + 1 + 2 ≠ 0 := by exact_mod_cast (Nat.succ_ne_zero (k + 2))
    have hk4 : (k : ℂ) + 1 + 1 ≠ 0 := by exact_mod_cast (Nat.succ_ne_zero (k + 1))
    have hk5 : (k : ℂ) + 2 + 1 ≠ 0 := by exact_mod_cast (Nat.succ_ne_zero (k + 2))
    field_simp
    ring

theorem exp_remainder_le {z : ℂ} (hz : ‖z‖ ≤ 1) :
    ‖Complex.exp z - ∑ j ∈ range (2 * seriesLength), z ^ j / (j.factorial : ℂ)‖ ≤ 2 ^ (-52 : ℤ) := by
  have hfactorial : (2 : ℝ) ^ 53 ≤ ((2 * seriesLength).factorial : ℕ) := by
    have hle : (20).factorial ≤ (2 * seriesLength).factorial := Nat.factorial_le (by decide)
    exact_mod_cast (show 2 ^ 53 ≤ (20).factorial by decide).trans hle
  have hbound := Complex.exp_bound hz (show 0 < 2 * seriesLength by decide)
  have hone : (1 : ℝ) ≤ (2 * seriesLength : ℕ) := Nat.one_le_cast.mpr (by decide)
  generalize (2 * seriesLength).factorial = f at *
  generalize 2 * seriesLength = n at *
  have hn : 0 < (n : ℝ) := one_pos.trans_le hone
  have hf : 0 < (f : ℝ) := lt_of_lt_of_le (by positivity) hfactorial
  calc ‖Complex.exp z - ∑ j ∈ range n, z ^ j / (j.factorial : ℂ)‖
      ≤ ‖z‖ ^ n * ((n.succ : ℝ) * (f * n : ℝ)⁻¹) := hbound
    _ ≤ 1 * ((2 * n : ℝ) * (f * n : ℝ)⁻¹) := by
        gcongr
        · exact pow_le_one₀ (norm_nonneg z) hz
        · push_cast
          linarith
    _ = 2 / f := by field_simp
    _ ≤ 2 / 2 ^ 53 := by gcongr
    _ = 2 ^ (-52 : ℤ) := by norm_num

/-- The two series give a point of the unit circle, up to their remainders. -/
theorem abs_taylor_sq_add_sub_one_le {y : ℝ} (hy : y ∈ Set.Icc (0 : ℝ) 1) :
    |taylor y seriesLength 0 ^ 2 + y * taylor y seriesLength 1 ^ 2 - 1| ≤ 2 ^ (-50 : ℤ) := by
  have hz : ((√y : ℂ) * Complex.I) ^ 2 = -y := by
    rw [mul_pow, Complex.I_sq, mul_neg_one, ← Complex.ofReal_pow, Real.sq_sqrt hy.1]
  have hnorm : ‖(√y : ℂ) * Complex.I‖ ≤ 1 := by
    rw [norm_mul, Complex.norm_I, mul_one, Complex.norm_real, Real.norm_eq_abs, abs_of_nonneg (Real.sqrt_nonneg y)]
    exact Real.sqrt_le_one.mpr hy.2
  have hsum := taylor_add_taylor hz seriesLength 0
  simp only [Nat.cast_zero, zero_add, Nat.one_ascFactorial, div_one] at hsum
  have hremainder := exp_remainder_le hnorm
  have hcircle : ‖Complex.exp ((√y : ℂ) * Complex.I)‖ = 1 := Complex.norm_exp_ofReal_mul_I _
  rw [← hsum] at hremainder
  generalize taylor y seriesLength 0 = c at *
  generalize taylor y seriesLength 1 = s at *
  have hsquare : ‖(c : ℂ) + (√y : ℂ) * Complex.I * s‖ ^ 2 = c ^ 2 + y * s ^ 2 := by
    have hparts : (c : ℂ) + (√y : ℂ) * Complex.I * s = ⟨c, √y * s⟩ := by
      apply Complex.ext <;> simp
    rw [hparts, ← Complex.normSq_eq_norm_sq, Complex.normSq_mk, ← pow_two, ← pow_two, mul_pow, Real.sq_sqrt hy.1]
  have hdistance := (abs_norm_sub_norm_le _ _).trans hremainder
  rw [hcircle] at hdistance
  rw [← hsquare]
  generalize ‖(c : ℂ) + (√y : ℂ) * Complex.I * s‖ = r at *
  have hr := abs_le.mp hdistance
  norm_num at hr ⊢
  rw [abs_le]
  constructor <;> nlinarith [hr.1, hr.2]

/-! ### Points of the circle -/

theorem abs_le_two_of_sq_add_sq {a b : ℝ} (h : |a ^ 2 + b ^ 2 - 1| ≤ 1) : |a| ≤ 2 ∧ |b| ≤ 2 := by
  have hle := (abs_le.mp h).2
  constructor <;> refine abs_le_of_sq_le_sq ?_ two_pos.le
  · linarith [sq_nonneg b]
  · linarith [sq_nonneg a]

theorem abs_sq_sub_sq_le {u v d b : ℝ} (hd : |u - v| ≤ d) (hb : |v| ≤ b) : |u ^ 2 - v ^ 2| ≤ d * (2 * b + d) := by
  have hsum : |u + v| ≤ 2 * b + d := by
    calc |u + v| = |u - v + 2 * v| := by ring_nf
      _ ≤ |u - v| + |2 * v| := abs_add_le _ _
      _ ≤ 2 * b + d := by
        rw [abs_mul, abs_two]
        linarith
  rw [sq_sub_sq, abs_mul, mul_comm]
  exact mul_le_mul hd hsum (abs_nonneg _) ((abs_nonneg _).trans hd)

/-- A cosine and a sine in units, whose squares add up to one but for a small error. -/
structure OnCircle (c s : Int) : Prop where
  error : |(c / unit : ℝ) ^ 2 + (s / unit : ℝ) ^ 2 - 1| ≤ 2 ^ (-48 : ℤ)

theorem series_div_unit {y : Nat} (hy : y ≤ unit) (term k : Nat) :
    |(series y seriesLength term k / unit : ℝ) - term / unit * taylor (y / unit) seriesLength k| ≤ 2 ^ (-60 : ℤ) := by
  have hseries := abs_series_sub_le hy seriesLength term k
  have hunit : (2 * seriesLength : ℝ) * 2 ^ 60 ≤ unit := by
    exact_mod_cast (show 2 * seriesLength * 2 ^ 60 ≤ unit by decide +kernel)
  have hpos := unit_pos
  generalize unit = u at *
  have hsplit : (series y seriesLength term k / u : ℝ) - term / u * taylor (y / u) seriesLength k =
      (series y seriesLength term k - term * taylor (y / u) seriesLength k) / u := by ring
  rw [hsplit, abs_div, abs_of_pos hpos, div_le_iff₀ hpos]
  refine hseries.trans ?_
  norm_num at hunit ⊢
  linarith

theorem one_div_unit_le : (1 : ℝ) / unit ≤ 2 ^ (-60 : ℤ) := by
  have hunit : (2 : ℝ) ^ 60 ≤ unit := by exact_mod_cast (show 2 ^ 60 ≤ unit by decide +kernel)
  rw [zpow_neg, ← one_div]
  exact one_div_le_one_div_of_le (by positivity) (by exact_mod_cast hunit)

/-- A point close to one of the two series, at an angle and at a number close to its square. -/
theorem abs_sq_add_sq_sub_one_le {C S c s x y δ : ℝ} (hδ : δ ≤ 2 ^ (-60 : ℤ)) (hC : |C - c| ≤ δ) (hS : |S - x * s| ≤ δ)
    (hsquare : |x ^ 2 - y| ≤ δ) (hx : |x| ≤ 1) (hc : |c| ≤ 2) (hs : |s| ≤ 2)
    (hcircle : |c ^ 2 + y * s ^ 2 - 1| ≤ 2 ^ (-50 : ℤ)) : |C ^ 2 + S ^ 2 - 1| ≤ 2 ^ (-48 : ℤ) := by
  have hnonneg : 0 ≤ δ := (abs_nonneg _).trans hC
  have hproduct : |x * s| ≤ 2 := by
    rw [abs_mul]
    exact (mul_le_mul hx hs (abs_nonneg s) zero_le_one).trans_eq (one_mul 2)
  have hcos := abs_sq_sub_sq_le hC hc
  have hsin := abs_sq_sub_sq_le hS hproduct
  have hrest : |(x ^ 2 - y) * s ^ 2| ≤ δ * 4 := by
    rw [abs_mul, abs_pow]
    refine mul_le_mul hsquare ?_ (by positivity) hnonneg
    nlinarith [abs_nonneg s]
  have hsplit : C ^ 2 + S ^ 2 - 1 =
      (C ^ 2 - c ^ 2) + (S ^ 2 - (x * s) ^ 2) + (x ^ 2 - y) * s ^ 2 + (c ^ 2 + y * s ^ 2 - 1) := by ring
  have hsmall : δ * (2 * 2 + δ) ≤ δ * 5 := by
    refine mul_le_mul_of_nonneg_left ?_ hnonneg
    norm_num at hδ ⊢
    linarith
  rw [hsplit]
  rw [abs_le] at *
  norm_num at hδ hcircle ⊢
  constructor <;> linarith [hcos.1, hcos.2, hsin.1, hsin.2, hrest.1, hrest.2, hcircle.1, hcircle.2]

theorem onCircle_small {angle : Int} (h : angle.natAbs ≤ unit) : OnCircle (small angle).1 (small angle).2 := by
  have hpos := unit_pos
  have hy : angle.natAbs * angle.natAbs / unit ≤ unit := Nat.div_le_of_le_mul (Nat.mul_le_mul h h)
  have hsine : ((small angle).2 / unit : ℝ) ^ 2 =
      (series (angle.natAbs * angle.natAbs / unit) seriesLength angle.natAbs 1 / unit : ℝ) ^ 2 := by
    rw [small]
    split
    · push_cast
      ring
    · rfl
  have hcos := series_div_unit hy unit 0
  rw [div_self hpos.ne', one_mul] at hcos
  -- The square of the angle is cut off by less than a unit.
  have hsquare : |((angle.natAbs : ℝ) / unit) ^ 2 - (angle.natAbs * angle.natAbs / unit : ℕ) / unit| ≤
      2 ^ (-60 : ℤ) := by
    have hexact : ((angle.natAbs : ℝ) / unit) ^ 2 = ((angle.natAbs * angle.natAbs : ℕ) : ℝ) / unit / unit := by
      push_cast
      ring
    rw [hexact, ← sub_div, abs_div, abs_of_pos hpos]
    exact (div_le_div_of_nonneg_right (abs_div_sub_le _ _) hpos.le).trans one_div_unit_le
  have hangle : |(angle.natAbs : ℝ) / unit| ≤ 1 := by
    rw [abs_of_nonneg (div_nonneg (Nat.cast_nonneg _) hpos.le)]
    exact (div_le_one hpos).mpr (Nat.cast_le.mpr h)
  have hmem : (((angle.natAbs * angle.natAbs / unit : ℕ) : ℝ) / unit) ∈ Set.Icc (0 : ℝ) 1 :=
    ⟨div_nonneg (Nat.cast_nonneg _) hpos.le, (div_le_one hpos).mpr (Nat.cast_le.mpr hy)⟩
  refine ⟨?_⟩
  rw [hsine, small]
  exact abs_sq_add_sq_sub_one_le le_rfl hcos (series_div_unit hy angle.natAbs 1) hsquare hangle
    (abs_taylor_le hmem seriesLength 0) (abs_taylor_le hmem seriesLength 1) (abs_taylor_sq_add_sub_one_le hmem)

/-- Of the quarter turn it only matters here that it is no longer than two. -/
theorem quarterTurn_bounds : 0 < quarterTurn ∧ quarterTurn ≤ 2 * unit := by decide +kernel

theorem onCircle_ofUnits (angle : Nat) : OnCircle (ofUnits angle).1 (ofUnits angle).2 := by
  obtain ⟨hpos, hle⟩ := quarterTurn_bounds
  have hremainder : (angle - ((2 * angle + quarterTurn) / (2 * quarterTurn) : ℕ) * quarterTurn : Int).natAbs ≤ unit := by
    have hlow := Nat.div_mul_le_self (2 * angle + quarterTurn) (2 * quarterTurn)
    have hhigh := Nat.lt_div_mul_add (a := 2 * angle + quarterTurn) (show 0 < 2 * quarterTurn by omega)
    generalize (2 * angle + quarterTurn) / (2 * quarterTurn) = q at *
    rw [Nat.mul_left_comm] at hlow hhigh
    rw [← Int.natCast_mul]
    generalize q * quarterTurn = t at *
    omega
  obtain ⟨hsmall⟩ := onCircle_small hremainder
  rw [ofUnits]
  simp only []
  generalize small _ = p at *
  split <;> constructor <;> simp only [Int.cast_neg, neg_div, neg_sq]
  · exact hsmall
  · rwa [add_comm ((p.2 / unit : ℝ) ^ 2)]
  · exact hsmall
  · rwa [add_comm ((p.2 / unit : ℝ) ^ 2)]

/-! ### Checked values -/

theorem unit_eq : (unit : ℝ) = 2 ^ (precision : ℤ) := by
  rw [unit, Nat.one_shiftLeft, zpow_natCast]
  push_cast
  rfl

theorem toUnits_div_unit (negative : Bool) (m : Nat) {e : Int} (he : leastExponent ≤ e) :
    (toUnits negative m e / unit : ℝ) = applySign (if negative then .negative else .positive) (m * 2 ^ e) := by
  have hexponent : ((e + precision).toNat : ℤ) = e + precision := by
    rw [leastExponent] at he
    exact Int.toNat_of_nonneg (by rw [precision]; omega)
  have hunits : ((m <<< (e + precision).toNat : ℕ) : ℝ) / unit = m * 2 ^ e := by
    rw [unit_eq, Nat.shiftLeft_eq]
    push_cast
    rw [← zpow_natCast, hexponent, zpow_add₀ two_ne_zero, ← mul_assoc, mul_div_cancel_right₀]
    positivity
  rw [toUnits, ← hunits]
  cases negative
  · rfl
  · simp only [if_true, applySign, Int.cast_neg, neg_div]
    rfl

theorem isNear_spec {x : Float} {exact : Int} (h : isNear x exact) : Within (2 ^ (-52 : ℤ)) x (exact / unit) := by
  rw [isNear] at h
  split at h
  · rename_i negative m e hview
    obtain ⟨hfinite, he, hvalue⟩ := toReal_of_view hview
    have hunit := unit_pos
    have hle : ((toUnits negative m e - exact).natAbs : ℝ) ≤ unit / 2 ^ 52 := by
      have hle := of_decide_eq_true h
      rw [Nat.shiftRight_eq_div_pow] at hle
      refine (Nat.cast_le.mpr hle).trans (Nat.cast_div_le.trans_eq ?_)
      rw [Nat.cast_pow, Nat.cast_ofNat]
    refine ⟨hfinite, ?_⟩
    rw [hvalue, ← toUnits_div_unit negative m he, ← sub_div, abs_div, abs_of_pos hunit, div_le_iff₀ hunit]
    rw [Nat.cast_natAbs] at hle
    push_cast at hle
    refine hle.trans_eq ?_
    rw [zpow_neg, div_eq_inv_mul]
    norm_num
  · cases h

theorem round_zero (s : Sign) (e : Int) : UnpackedFloat.round .binary64 s 0 e = .zero s := by
  rw [round_eq, Nat.zero_mul]
  have hrounds := rounds_roundWithAccuracy s 0 (e - (e - grid 0 e).toNat) .exact
  have hzero (k : Nat) : rounded 0 .exact k = 0 := by simpa using rounded_exact 0 k
  simp only [hzero] at hrounds
  generalize roundWithAccuracy .binary64 s 0 _ .exact = f at hrounds
  cases hrounds with
  | zero => rfl
  | kept hpos => cases hpos
  | carried h => exact absurd h (by decide)

theorem approximates_nearest (negative : Bool) (m : Nat) (e : Int) :
    Approximates (form (nearest negative m e)) (applySign (if negative then .negative else .positive) (m * 2 ^ e)) := by
  have hform (s : Sign) : Approximates (form (ofForm (UnpackedFloat.round .binary64 s m e))) (applySign s (m * 2 ^ e)) := by
    rcases Nat.eq_zero_or_pos m with rfl | hm
    · rw [round_zero, form_ofForm (f := .zero s) trivial, Nat.cast_zero, zero_mul]
      cases s
      · rw [applySign, neg_zero]
        exact approximates_zero _
      · exact approximates_zero _
    · rw [form_ofForm (canonical_round s hm e)]
      exact approximates_round s hm e
  exact hform _

theorem nearest_spec (negative : Bool) {m : Nat} {e : Int} {r : ℝ} (hr : r ≤ 2)
    (h : |m * 2 ^ e - r| ≤ r * 2 ^ (-127 : ℤ)) :
    Within (2 ^ (-46 : ℤ)) (nearest negative m e) (applySign (if negative then .negative else .positive) r) := by
  have hsmall : r * 2 ^ (-127 : ℤ) ≤ 2 ^ (-126 : ℤ) := by
    calc r * 2 ^ (-127 : ℤ) ≤ 2 * 2 ^ (-127 : ℤ) := by gcongr
      _ = 2 ^ (-126 : ℤ) := by norm_num
  have hexact := h.trans hsmall
  have hlarge : |applySign (if negative then .negative else .positive) (m * 2 ^ e)| ≤ 16 := by
    have hle := (abs_le.mp hexact).2
    rw [abs_applySign, abs_of_nonneg (by positivity)]
    norm_num at hle
    linarith
  rw [← abs_applySign (if negative then .negative else .positive), ← applySign_sub] at hexact
  refine (((approximates_nearest negative m e).within hlarge).trans hexact).mono ?_
  norm_num

/-- Of a number of units 128 bits are kept, and a bit that tells whether others were cut off. -/
theorem abs_kept_sub_le (m : Nat) :
    let cut := m.log2 - 127
    let rest : Nat := if (m >>> cut) <<< cut = m then 0 else 1
    |((2 * (m >>> cut) + rest : ℕ) : ℝ) * 2 ^ ((cut : ℤ) - precision - 1) - m / unit| ≤ m / unit * 2 ^ (-127 : ℤ) := by
  intro cut rest
  have hunit := unit_pos
  have hscale : ((2 * (m >>> cut) + rest : ℕ) : ℝ) * 2 ^ ((cut : ℤ) - precision - 1) - m / unit =
      (((m / 2 ^ cut : ℕ) * 2 ^ cut - m) + (rest : ℝ) / 2 * 2 ^ cut) / unit := by
    rw [zpow_sub₀ two_ne_zero, zpow_sub₀ two_ne_zero, ← unit_eq, zpow_natCast, Nat.shiftRight_eq_div_pow]
    push_cast
    field_simp
    ring
  rw [hscale, abs_div, abs_of_pos hunit, div_mul_eq_mul_div (m : ℝ), div_le_div_iff_of_pos_right hunit]
  by_cases hexact : (m >>> cut) <<< cut = m
  · have hm : (m / 2 ^ cut : ℕ) * (2 : ℝ) ^ cut = m := by
      rw [Nat.shiftRight_eq_div_pow, Nat.shiftLeft_eq] at hexact
      exact_mod_cast hexact
    have hrest : rest = 0 := if_pos hexact
    rw [hm, hrest, Nat.cast_zero, zero_div, zero_mul, sub_self, add_zero, abs_zero]
    exact mul_nonneg (Nat.cast_nonneg m) (by norm_num)
  · have hrest : rest = 1 := if_neg hexact
    have hcut : m.log2 = cut + 127 := by
      have hpos : cut ≠ 0 := by
        intro hzero
        rw [hzero] at hexact
        exact hexact (by simp)
      omega
    have hlow : ((m / 2 ^ cut : ℕ) : ℝ) * 2 ^ cut ≤ m := by exact_mod_cast Nat.div_mul_le_self m (2 ^ cut)
    have hhigh : (m : ℝ) < (m / 2 ^ cut : ℕ) * 2 ^ cut + 2 ^ cut := by
      exact_mod_cast Nat.lt_div_mul_add (Nat.two_pow_pos cut)
    have hkept : (2 : ℝ) ^ cut ≤ m * 2 ^ (-127 : ℤ) := by
      have hlog : 2 ^ (cut + 127) ≤ m := hcut ▸ Nat.log2_self_le (by
        rintro rfl
        exact hexact (by simp))
      have hlog : (2 : ℝ) ^ cut * 2 ^ 127 ≤ m := by
        rw [← pow_add]
        exact_mod_cast hlog
      rw [zpow_neg, ← div_eq_mul_inv, le_div_iff₀ (by positivity)]
      exact_mod_cast hlog
    refine le_trans ?_ hkept
    rw [hrest, abs_le]
    push_cast
    constructor <;> linarith

theorem round_spec {exact : Int} (h : |(exact / unit : ℝ)| ≤ 2) :
    Within (2 ^ (-46 : ℤ)) (round exact) (exact / unit) := by
  have hsign : (exact / unit : ℝ) = applySign (if exact < 0 then .negative else .positive) (exact.natAbs / unit) := by
    rw [Nat.cast_natAbs]
    by_cases hneg : exact < 0
    · simp only [hneg, if_true, applySign, abs_of_neg, Int.cast_neg, neg_div, neg_neg]
    · simp only [hneg, if_false, applySign, abs_of_nonneg (not_lt.mp hneg)]
  have hnonneg : (0 : ℝ) ≤ exact.natAbs / unit := div_nonneg (Nat.cast_nonneg _) unit_pos.le
  rw [hsign, abs_applySign, abs_of_nonneg hnonneg] at h
  have hnearest := nearest_spec (decide (exact < 0)) h (abs_kept_sub_le exact.natAbs)
  simp only [decide_eq_true_eq] at hnearest
  rw [round, nearestTo, hsign]
  simpa only [decide_eq_true_eq] using hnearest

theorem checked_spec (guess : Float) {exact : Int} (h : |(exact / unit : ℝ)| ≤ 2) :
    Within (2 ^ (-46 : ℤ)) (checked guess exact) (exact / unit) := by
  rw [checked]
  split
  · rename_i hnear
    exact (isNear_spec hnear).mono (zpow_le_zpow_right₀ one_le_two (by decide))
  · exact round_spec h

theorem OnCircle.abs_le_two {c s : Int} (h : OnCircle c s) : |(c / unit : ℝ)| ≤ 2 ∧ |(s / unit : ℝ)| ≤ 2 :=
  abs_le_two_of_sq_add_sq (h.error.trans (zpow_le_one_of_nonpos₀ one_le_two (by decide)))

theorem OnCircle.neg {c s : Int} (h : OnCircle c s) : OnCircle c (-s) := by
  refine ⟨?_⟩
  rw [Int.cast_neg, neg_div, neg_sq]
  exact h.error

theorem ofUnits_zero : (ofUnits 0).2 = 0 := by decide +kernel

end FixedPoint
open FixedPoint

/-! ### Cosine and sine -/

theorem cos_eq_checked {x : Float} {negative : Bool} {m : Nat} {e : Int} (h : view x = .finite negative m e) :
    cos x = checked x.cos (ofUnits (FixedPoint.toUnits false m e).toNat).1 := by
  simp only [cos, h]

theorem sin_eq_checked {x : Float} {negative : Bool} {m : Nat} {e : Int} (h : view x = .finite negative m e)
    (hm : m ≠ 0) : sin x = checked x.sin (if negative then -(ofUnits (FixedPoint.toUnits false m e).toNat).2
      else (ofUnits (FixedPoint.toUnits false m e).toNat).2) := by
  simp only [sin, h, if_neg hm]

/-- The cosine and the sine of a finite angle stand for the coordinates of one point of the circle. -/
theorem exists_onCircle {x : Float} (hx : x.isFinite) : ∃ c s, OnCircle c s ∧
    Within (2 ^ (-46 : ℤ)) (cos x) (c / unit) ∧ Within (2 ^ (-46 : ℤ)) (sin x) (s / unit) := by
  have hfinite : (form x).isFinite := hx
  obtain ⟨negative, m, e, hview⟩ : ∃ negative m e, view x = .finite negative m e := by
    rw [view_eq]
    generalize form x = f at hfinite
    cases f with
    | zero | finite => exact ⟨_, _, _, rfl⟩
    | infinity | notANumber => cases hfinite
  have hcircle := onCircle_ofUnits (FixedPoint.toUnits false m e).toNat
  have hcos := checked_spec x.cos hcircle.abs_le_two.1
  rw [← cos_eq_checked hview] at hcos
  by_cases hm : m = 0
  · -- The sine of a zero is that zero, and the point is the one at which the circle begins.
    subst hm
    obtain ⟨-, -, hvalue⟩ := toReal_of_view hview
    have hsin : sin x = x := by simp only [sin, hview, if_true]
    have hzero : toReal x = 0 := by
      rw [hvalue, Nat.cast_zero, zero_mul]
      cases negative
      · rfl
      · exact neg_zero
    have hunits : (FixedPoint.toUnits false 0 e).toNat = 0 := by simp [FixedPoint.toUnits]
    refine ⟨_, _, hcircle, hcos, ?_⟩
    rw [hsin, hunits, ofUnits_zero, Int.cast_zero, zero_div, ← hzero]
    exact (within_self hx).mono (by norm_num)
  · have hsin := sin_eq_checked hview hm
    generalize (ofUnits (FixedPoint.toUnits false m e).toNat).1 = c at hcircle hcos
    generalize (ofUnits (FixedPoint.toUnits false m e).toNat).2 = s at hcircle hsin
    cases negative
    · have hchecked := checked_spec x.sin hcircle.abs_le_two.2
      rw [if_neg Bool.false_ne_true] at hsin
      rw [← hsin] at hchecked
      exact ⟨c, s, hcircle, hcos, hchecked⟩
    · have hchecked := checked_spec x.sin hcircle.neg.abs_le_two.2
      rw [if_pos rfl] at hsin
      rw [← hsin] at hchecked
      exact ⟨c, -s, hcircle.neg, hcos, hchecked⟩

/-- The squares of the cosine and the sine of a finite angle add up to one, but for rounding. -/
theorem abs_cos_sq_add_sin_sq_sub_one_le {x : Float} (hx : x.isFinite) :
    (cos x).isFinite ∧ (sin x).isFinite ∧ |toReal (cos x) ^ 2 + toReal (sin x) ^ 2 - 1| ≤ 2 ^ (-42 : ℤ) := by
  obtain ⟨c, s, hcircle, ⟨hcosfinite, hcos⟩, hsinfinite, hsin⟩ := exists_onCircle hx
  obtain ⟨hfst, hsnd⟩ := hcircle.abs_le_two
  refine ⟨hcosfinite, hsinfinite, ?_⟩
  have hcos := abs_le.mp (abs_sq_sub_sq_le hcos hfst)
  have hsin := abs_le.mp (abs_sq_sub_sq_le hsin hsnd)
  have hcircle := abs_le.mp hcircle.error
  rw [abs_le]
  norm_num at hcos hsin hcircle ⊢
  constructor <;> linarith [hcos.1, hcos.2, hsin.1, hsin.2, hcircle.1, hcircle.2]

/-- An angle that is no finite number has neither a cosine nor a sine. -/
theorem cos_sin_of_not_finite {angle : Float} (h : ¬angle.isFinite) : cos angle = 0.0 / 0.0 ∧ sin angle = 0.0 / 0.0 := by
  have hfinite : ¬(form angle).isFinite := h
  have hview : (∃ negative, view angle = .infinite negative) ∨ view angle = .nan := by
    rw [view_eq]
    generalize form angle = f at hfinite
    cases f with
    | infinity => exact .inl ⟨_, rfl⟩
    | notANumber => exact .inr rfl
    | zero | finite => exact absurd rfl hfinite
  rcases hview with ⟨negative, hview⟩ | hview <;> simp only [cos, sin, hview, and_self]

end Ketscript.Binary64
