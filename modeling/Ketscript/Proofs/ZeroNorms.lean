import Ketscript.Proofs.Binary64.Underflow
import Ketscript.Proofs.Outcomes

/-! Norms of zero. Four operations refuse a ket because its norm is zero: they see a rounded sum of squares, its root,
    a product of two roots, or a sum that is not above zero. A sum of squares is zero if every square is rounded to
    zero, which amplitudes up to `2 ^ -537.5` are, and nothing underflows after that. A product of norms is zero if
    one of them is and the other is finite, and a sum is not above zero also if it is not a number. -/

namespace Ketscript.Ket
open Binary64

variable {v w : Ket FloatComplex}

/-- Every amplitude is zero. -/
def IsZero (v : Ket FloatComplex) : Prop := ∀ z ∈ v, z == 0

/-- Every square of a part is rounded to zero. -/
def Vanishes (v : Ket FloatComplex) : Prop := ∀ z ∈ v, Negligible z.re ∧ Negligible z.im

/-- A part of an amplitude is not a number. -/
def HasNaN (v : Ket FloatComplex) : Prop := ∃ z ∈ v, z.re.isNaN ∨ z.im.isNaN

/-- No square is rounded to zero but that of zero, and the sum of the squares is finite. -/
structure InRange (v : Ket FloatComplex) : Prop where
  distinct : ∀ z ∈ v, (Negligible z.re → z.re == 0.0) ∧ (Negligible z.im → z.im == 0.0)
  finite : (normSq v : Float).isFinite

/-- The four operations refuse exactly the kets of zeros because of their norm. -/
structure RefusesOnlyZero (v w : Ket FloatComplex) : Prop where
  normalize : v.normalize? = .error .zeroNorm ↔ v.IsZero
  probability : ∀ i < v.size, (v.probability? i = .error .zeroNorm ↔ v.IsZero)
  transition : v.size = w.size → (v.transition? w = .error .zeroNorm ↔ v.IsZero ∨ w.IsZero)
  measure : ∀ (s : Store FloatComplex) (register : String) (words : Nat → UInt64) (drawn : Nat),
    s.registers.find? register = some v →
      ((s.measure words register).on drawn = (.error (.zeroNorm register), drawn) ↔ v.IsZero)

/-! ### Sums of squares -/

theorem normSq_beq_zero_iff (z : FloatComplex) :
    (Amplitude.normSq z : Float) == 0.0 ↔ Negligible z.re ∧ Negligible z.im := by
  show z.re * z.re + z.im * z.im == 0.0 ↔ _
  rw [← mul_self_beq_zero_iff (x := z.re), ← mul_self_beq_zero_iff (x := z.im)]
  exact add_beq_zero_iff (not_mul_self_neg _) (not_mul_self_neg _)

theorem isNaN_normSq_iff (z : FloatComplex) : (Amplitude.normSq z : Float).isNaN ↔ z.re.isNaN ∨ z.im.isNaN := by
  show (z.re * z.re + z.im * z.im).isNaN ↔ _
  rw [← isNaN_mul_self_iff (x := z.re), ← isNaN_mul_self_iff (x := z.im)]
  exact isNaN_add_iff (not_mul_self_neg _) (not_mul_self_neg _)

/-- What holds of a sum of two numbers that are not below zero if and only if it holds of both, holds of a sum of
    squares if and only if it holds of each. -/
theorem foldl_normSq_iff {P : Float → Prop}
    (hadd : ∀ {x y : Float}, ¬x < 0.0 → ¬y < 0.0 → (P (x + y) ↔ P x ∧ P y)) {l : List FloatComplex} {sum : Float}
    (hsum : ¬sum < 0.0) :
    P (l.foldl (fun sum z => sum + Amplitude.normSq z) sum) ↔ P sum ∧ ∀ z ∈ l, P (Amplitude.normSq z) := by
  induction l generalizing sum with
  | nil => simp
  | cons z l ih =>
    have hnext : ¬sum + Amplitude.normSq z < 0.0 := fun h =>
      (neg_of_add_neg h).elim hsum (not_normSq_neg z)
    rw [List.foldl_cons, ih hnext, hadd hsum (not_normSq_neg z), and_assoc, List.forall_mem_cons]

theorem normSq_iff {P : Float → Prop}
    (hadd : ∀ {x y : Float}, ¬x < 0.0 → ¬y < 0.0 → (P (x + y) ↔ P x ∧ P y)) (hstart : P (-0.0)) :
    P (normSq v) ↔ ∀ z ∈ v, P (Amplitude.normSq z) := by
  rw [normSq, ← Array.foldl_toList, foldl_normSq_iff hadd (by decide)]
  simp only [Array.mem_toList_iff]
  exact and_iff_right hstart

theorem not_normSq_neg_ket (v : Ket FloatComplex) : ¬(normSq v : Float) < 0.0 :=
  (normSq_iff (P := fun x => ¬x < 0.0) (fun hx hy => iff_of_true (fun h => (neg_of_add_neg h).elim hx hy) ⟨hx, hy⟩)
    (by decide)).mpr fun z _ => not_normSq_neg z

theorem vanishes_iff : v.Vanishes ↔ (normSq v : Float) == 0.0 := by
  rw [normSq_iff (P := fun x => x == 0.0) add_beq_zero_iff (by decide)]
  exact forall₂_congr fun z _ => (normSq_beq_zero_iff z).symm

theorem hasNaN_iff : v.HasNaN ↔ (normSq v : Float).isNaN := by
  have hadd {x y : Float} (hx : ¬x < 0.0) (hy : ¬y < 0.0) : ¬(x + y).isNaN ↔ ¬x.isNaN ∧ ¬y.isNaN := by
    rw [isNaN_add_iff hx hy, not_or]
  rw [← not_iff_not, normSq_iff (P := fun x => ¬x.isNaN) hadd (by decide), HasNaN]
  simp only [isNaN_normSq_iff, not_exists, not_and]

/-! ### Operations -/

theorem normalize?_eq_zeroNorm : v.normalize? = .error .zeroNorm ↔ v.Vanishes := by
  rw [vanishes_iff, ← sqrt_beq_zero_iff, normalize?]
  show (if norm v == (0.0 : Float) then _ else _) = _ ↔ norm v == 0.0
  split <;> simp [*]

theorem probability?_eq_zeroNorm {i : Nat} (hi : i < v.size) :
    v.probability? i = .error .zeroNorm ↔ v.Vanishes := by
  rw [vanishes_iff, probability?, dif_pos hi]
  show (if normSq v == (0.0 : Float) then _ else _) = _ ↔ _
  split <;> simp [*]

theorem transition?_eq_zeroNorm (hsize : v.size = w.size) : v.transition? w = .error .zeroNorm ↔
    (v.Vanishes ∧ (normSq w : Float).isFinite) ∨ (w.Vanishes ∧ (normSq v : Float).isFinite) := by
  have hinner : sameLength w v = .ok () := if_pos hsize.symm
  rw [vanishes_iff, vanishes_iff, ← sqrt_mul_sqrt_beq_zero_iff (not_normSq_neg_ket v) (not_normSq_neg_ket w),
    transition?, inner?, hinner]
  show (if norm v * norm w == (0.0 : Float) then _ else _) = _ ↔ norm v * norm w == 0.0
  split <;> simp [*]

theorem measure_eq_zeroNorm {s : Store FloatComplex} {register : String} {words : Nat → UInt64} {drawn : Nat}
    (hregister : s.registers.find? register = some v) :
    (s.measure words register).on drawn = (.error (.zeroNorm register), drawn) ↔ v.Vanishes ∨ v.HasNaN := by
  have hmeasure : (s.measure words register).on drawn = (.error (.zeroNorm register), drawn) ↔
      ¬(0.0 : Float) < normSq v := by
    rw [Store.measure, Store.register?_eq_ok.mpr hregister, Operation.on_lift_bind]
    by_cases hpos : (0.0 : Float) < normSq v
    · refine iff_of_false (fun h => ?_) (not_not_intro hpos)
      cases ((Operation.on_failIf_bind ..).trans (if_neg (not_not_intro hpos))).symm.trans h
    · exact iff_of_true ((Operation.on_failIf_bind ..).trans (if_pos hpos)) hpos
  rw [hmeasure, vanishes_iff, hasNaN_iff]
  constructor
  · intro hnot
    by_contra h
    rw [not_or] at h
    exact hnot (pos_of_not (not_normSq_neg_ket v) h.1 h.2)
  · rintro (hzero | hnan)
    · exact not_pos_of_beq_zero hzero
    · exact not_lt_of_isNaN hnan

/-! ### Kets in range -/

theorem InRange.vanishes_iff (h : v.InRange) : v.Vanishes ↔ v.IsZero := by
  have hsquare {x : Float} (hx : x == 0.0) : Negligible x :=
    mul_self_beq_zero_iff.mp (mul_beq_zero hx (isFinite_of_beq_zero hx))
  refine forall₂_congr fun z hz => ?_
  obtain ⟨hre, him⟩ := h.distinct z hz
  show _ ↔ (z.re == 0.0 && z.im == 0.0) = true
  rw [Bool.and_eq_true]
  exact ⟨fun hz => ⟨hre hz.1, him hz.2⟩, fun hz => ⟨hsquare hz.1, hsquare hz.2⟩⟩

theorem InRange.not_hasNaN (h : v.InRange) : ¬v.HasNaN := by
  rw [hasNaN_iff, isNaN_iff]
  exact (isFinite_iff.mp h.finite).2

theorem InRange.refusesOnlyZero (hv : v.InRange) (hw : w.InRange) : RefusesOnlyZero v w where
  normalize := normalize?_eq_zeroNorm.trans hv.vanishes_iff
  probability i hi := (probability?_eq_zeroNorm hi).trans hv.vanishes_iff
  transition hsize := by
    rw [transition?_eq_zeroNorm hsize, hv.vanishes_iff, hw.vanishes_iff, and_iff_left hw.finite, and_iff_left hv.finite]
  measure s register words drawn hregister := by
    rw [measure_eq_zeroNorm hregister, hv.vanishes_iff, or_iff_left hv.not_hasNaN]

/-- The four operations refuse a ket because of its norm exactly if all its squares are rounded to zero, where a
    transition also needs the other norm to be finite, and a measurement also refuses what is not a number. So if all
    squares of two kets are in range, they refuse exactly the kets of zeros. -/
theorem zero_norm_errors (v w : Ket FloatComplex) :
    (v.normalize? = .error .zeroNorm ↔ v.Vanishes) ∧
      (∀ i < v.size, (v.probability? i = .error .zeroNorm ↔ v.Vanishes)) ∧
      (v.size = w.size → (v.transition? w = .error .zeroNorm ↔
        (v.Vanishes ∧ (normSq w : Float).isFinite) ∨ (w.Vanishes ∧ (normSq v : Float).isFinite))) ∧
      (∀ (s : Store FloatComplex) (register : String) (words : Nat → UInt64) (drawn : Nat),
        s.registers.find? register = some v →
          ((s.measure words register).on drawn = (.error (.zeroNorm register), drawn) ↔ v.Vanishes ∨ v.HasNaN)) ∧
      (v.InRange → w.InRange → RefusesOnlyZero v w) :=
  ⟨normalize?_eq_zeroNorm, fun _ => probability?_eq_zeroNorm, transition?_eq_zeroNorm,
    fun _ _ _ _ => measure_eq_zeroNorm, InRange.refusesOnlyZero⟩

set_option maxRecDepth 4000 in
/-- The square of `3e-162` is still rounded to the least positive number. -/
theorem zero_norm_errors_least :
    let v : Ket FloatComplex := #[⟨0.0, 0.0⟩, ⟨-0.0, 0.0⟩]
    let w : Ket FloatComplex := #[⟨0.0, 0.0⟩, ⟨3e-162, 0.0⟩]
    (v.InRange ∧ w.InRange) ∧ v.transition? w = .error .zeroNorm ∧ w.normalize? ≠ .error .zeroNorm := by
  intro v w
  have hv : v.InRange := ⟨by decide +kernel, by decide +kernel⟩
  have hw : w.InRange := ⟨by decide +kernel, by decide +kernel⟩
  obtain ⟨-, -, -, -, hvw⟩ := zero_norm_errors v w
  obtain ⟨-, -, -, -, hww⟩ := zero_norm_errors w w
  have hzero : v.IsZero := by unfold IsZero; decide +kernel
  have hnot : ¬w.IsZero := by unfold IsZero; decide +kernel
  exact ⟨⟨hv, hw⟩, ((hvw hv hw).transition rfl).mpr (.inl hzero), fun h => hnot ((hww hw hw).normalize.mp h)⟩

/-- The square of `1e-200` is rounded to zero, so all four operations refuse a ket that is not zero. -/
theorem tiny_refused :
    let v : Ket FloatComplex := #[⟨1e-200, 0.0⟩]
    let s : Store FloatComplex := { Store.empty with registers := Store.empty.registers.insert "A" v }
    ¬v.IsZero ∧ v.normalize? = .error .zeroNorm ∧ v.probability? 0 = .error .zeroNorm ∧
      v.transition? v = .error .zeroNorm ∧
      (∀ words drawn, (s.measure words "A").on drawn = (.error (.zeroNorm "A"), drawn)) ∧ ¬RefusesOnlyZero v v := by
  intro v s
  have hzero : ¬v.IsZero := by unfold IsZero; decide +kernel
  have hvanishes : v.Vanishes := by unfold Vanishes; decide +kernel
  have hfinite : (normSq v : Float).isFinite := by decide +kernel
  have hnormalize := normalize?_eq_zeroNorm.mpr hvanishes
  exact ⟨hzero, hnormalize, (probability?_eq_zeroNorm (by decide)).mpr hvanishes,
    (transition?_eq_zeroNorm rfl).mpr (.inl ⟨hvanishes, hfinite⟩),
    fun words drawn => (measure_eq_zeroNorm (NameMap.find?_insert_self _ _ _)).mpr (.inl hvanishes),
    fun h => hzero (h.normalize.mp hnormalize)⟩

end Ketscript.Ket
