import Ketscript.Binary64.Basic
import Mathlib

/-! Forms of binary64 numbers. The form of a number is what its 64 bits stand for: nothing, an infinity, a zero,
    or a sign with a mantissa and an exponent. An operation works on forms and packs its result into 64 bits
    again. Forms with a mantissa of 53 bits, or of fewer at the least exponent, are packed without loss, but for
    those that are too large and become infinite; and every number has such a form. -/

namespace Ketscript.Binary64
open Float.Model (Format UnpackedFloat)
open Float.Model.UnpackedFloat

/-- What a number stands for. -/
def form (x : Float) : UnpackedFloat := x.toModel.unpack

/-- The number with a form. -/
def ofForm (f : UnpackedFloat) : Float := .ofModel (.pack f)

/-- The exponent of the largest finite numbers. -/
def greatestExponent : Int := 971

/-- A mantissa has 53 bits, or fewer at the least exponent. -/
def Canonical : UnpackedFloat → Prop
  | .finite _ m e _ => m < 2 ^ 53 ∧ leastExponent ≤ e ∧ (2 ^ 52 ≤ m ∨ e = leastExponent)
  | .zero _ | .infinity _ | .notANumber => True

/-- A form that is too large for a finite number becomes infinite. -/
def clip : UnpackedFloat → UnpackedFloat
  | .finite s m e h => if greatestExponent < e then .infinity s else .finite s m e h
  | f => f

/-! ### Fields of a word -/

theorem ofBitVec_toBitVec (s : Sign) : Sign.ofBitVec s.toBitVec = s := by cases s <;> rfl

theorem toBitVec_ofBitVec (b : BitVec 1) : (Sign.ofBitVec b).toBitVec = b := by
  revert b
  decide

theorem unpackSign_components (s : Sign) (e : BitVec 11) (m : BitVec 52) :
    unpackSign (packComponents .binary64 s e m) = s.toBitVec := by
  ext i hi
  simp only [unpackSign, packComponents]
  grind

theorem components_unpack (b : BitVec Format.binary64.numBits) :
    packComponents .binary64 (Sign.ofBitVec (unpackSign b)) (unpackExponent b) (unpackMantissa b) = b := by
  simp only [packComponents, toBitVec_ofBitVec, unpackSign, unpackExponent, unpackMantissa, BitVec.extractLsb]
  ext i hi
  grind

theorem implicit_bit (m : BitVec 52) : (1#1 ++ m).toNat = 2 ^ 52 + m.toNat := by
  rw [BitVec.toNat_append, ← Nat.shiftLeft_add_eq_or_of_lt m.isLt]
  rfl

/-! ### Packing -/

theorem unpack_subnormal (s : Sign) {m : BitVec 52} (hm : 0 < m.toNat) :
    unpack .binary64 (packComponents .binary64 s 0#11 m) = .finite s m.toNat leastExponent hm := by
  have hzero : m ≠ 0#52 := by
    rintro rfl
    cases hm
  simp only [unpack, unpackMantissa_packComponents, unpackExponent_packComponents, unpackSign_components,
    ofBitVec_toBitVec]
  rw [if_neg (by decide), if_pos trivial, dif_neg hzero]
  rfl

theorem unpack_normal (s : Sign) {e : BitVec 11} {m : BitVec 52} (hpos : 0 < e.toNat) (hmax : e.toNat < 2047) :
    unpack .binary64 (packComponents .binary64 s e m) =
      .finite s (2 ^ 52 + m.toNat) (e.toNat - 1075) (Nat.add_pos_left (Nat.two_pow_pos 52) _) := by
  have hzero : e ≠ 0#11 := by
    rintro rfl
    cases hpos
  have hones : e ≠ -1#11 := by
    rintro rfl
    exact absurd hmax (by decide)
  simp only [unpack, unpackMantissa_packComponents, unpackExponent_packComponents, unpackSign_components,
    ofBitVec_toBitVec]
  rw [if_neg hones, if_neg hzero]
  simp only [implicit_bit]
  rfl

theorem log2_eq_iff {m : Nat} : m.log2 = 52 ↔ 2 ^ 52 ≤ m ∧ m < 2 ^ 53 := by
  by_cases hm : m = 0
  · subst hm
    decide
  · exact Nat.log2_eq_iff hm

theorem pack_normal (s : Sign) {m : Nat} {e : Int} (h : 0 < m) (hlow : 2 ^ 52 ≤ m) (hhigh : m < 2 ^ 53)
    (hgreatest : e ≤ greatestExponent) :
    pack .binary64 (.finite s m e h) =
      packComponents .binary64 s (BitVec.ofNat 11 (e + 1075).toNat) (BitVec.ofNat 52 m) := by
  have hlog : m.log2 = 52 := log2_eq_iff.mpr ⟨hlow, hhigh⟩
  have hbiased : (e + (Format.binary64.exponentBias : Nat) + (52 : Nat)).toNat = (e + 1075).toNat := by
    show (e + 1023 + 52).toNat = _
    omega
  have hfits : ¬2 ^ 11 ≤ (e + 1075).toNat + 1 := by
    simp only [greatestExponent] at hgreatest
    omega
  simp only [pack, hbiased, hlog]
  rw [if_neg hfits, if_pos (show 52 + 1 = Format.binary64.mantissaBits from rfl)]

theorem pack_subnormal (s : Sign) {m : Nat} (h : 0 < m) (hm : m < 2 ^ 52) :
    pack .binary64 (.finite s m leastExponent h) = packComponents .binary64 s 0#11 (BitVec.ofNat 52 m) := by
  have hlog : ¬m.log2 + 1 = Format.binary64.mantissaBits := by
    intro hlog
    have := log2_eq_iff.mp (Nat.succ.inj hlog)
    omega
  simp only [pack]
  rw [if_neg (by decide), if_neg hlog]

theorem pack_large (s : Sign) {m : Nat} {e : Int} (h : 0 < m) (he : greatestExponent < e) :
    pack .binary64 (.finite s m e h) = packedInfinity .binary64 s := by
  have hlarge : 2 ^ 11 ≤ (e + (Format.binary64.exponentBias : Nat) + (52 : Nat)).toNat + 1 := by
    show 2 ^ 11 ≤ (e + 1023 + 52).toNat + 1
    simp only [greatestExponent] at he
    omega
  simp only [pack]
  rw [if_pos hlarge]

theorem unpack_pack_infinity (s : Sign) : unpack .binary64 (packedInfinity .binary64 s) = .infinity s := by
  cases s <;> rfl

/-- Packing loses nothing of a canonical form, unless it is too large. -/
theorem form_ofForm {f : UnpackedFloat} (h : Canonical f) : form (ofForm f) = clip f := by
  show unpack .binary64 (pack .binary64 f) = clip f
  cases f with
  | notANumber => rfl
  | infinity s => exact unpack_pack_infinity s
  | zero s => cases s <;> rfl
  | finite s m e hpos =>
    obtain ⟨hhigh, hleast, hfull⟩ := h
    rw [clip]
    split
    · rename_i hlarge
      rw [pack_large s hpos hlarge, unpack_pack_infinity]
    · rename_i hgreatest
      have hgreatest : e ≤ greatestExponent := Int.not_lt.mp hgreatest
      -- The leading bit of a full mantissa is not stored; the exponent tells that it is there.
      by_cases hlow : 2 ^ 52 ≤ m
      · have hbiased : (BitVec.ofNat 11 (e + 1075).toNat).toNat = (e + 1075).toNat := by
          simp only [BitVec.toNat_ofNat, leastExponent, greatestExponent] at *
          omega
        have hmantissa : 2 ^ 52 + (BitVec.ofNat 52 m).toNat = m := by
          simp only [BitVec.toNat_ofNat]
          omega
        simp only [leastExponent, greatestExponent] at hleast hgreatest
        rw [pack_normal s hpos hlow hhigh hgreatest, unpack_normal s (by omega) (by omega)]
        simp only [hbiased, hmantissa]
        congr 1
        omega
      · obtain rfl := hfull.resolve_left hlow
        have hmantissa : (BitVec.ofNat 52 m).toNat = m := Nat.mod_eq_of_lt (Nat.not_le.mp hlow)
        rw [pack_subnormal s hpos (Nat.not_le.mp hlow), unpack_subnormal s (hmantissa.symm ▸ hpos)]
        simp only [hmantissa]

/-- Every word that is not another not-a-number is packed from the form that it is unpacked to. -/
theorem pack_unpack {b : BitVec Format.binary64.numBits} (h : Format.binary64.Valid b) :
    Canonical (unpack .binary64 b) ∧ pack .binary64 (unpack .binary64 b) = b := by
  obtain ⟨s, e, m, rfl⟩ : ∃ s e m, b = packComponents .binary64 s e m := ⟨_, _, _, (components_unpack b).symm⟩
  have hm : m.toNat < 2 ^ 52 := m.isLt
  -- An exponent field of ones is that of the infinities, one of zeros that of zeros and subnormal numbers.
  by_cases hones : e = -1#11
  · subst hones
    by_cases hzero : m = 0#52
    · subst hzero
      rw [show packComponents .binary64 s (-1#11) 0#52 = packedInfinity .binary64 s from rfl, unpack_pack_infinity]
      exact ⟨trivial, rfl⟩
    · have hnan := h.eq_packedNaN (unpackExponent_packComponents) (by simpa using hzero)
      rw [hnan]
      exact ⟨trivial, rfl⟩
  · by_cases hzero : e = 0#11
    · subst hzero
      by_cases hmantissa : m = 0#52
      · subst hmantissa
        cases s <;> exact ⟨trivial, rfl⟩
      · have hpos : 0 < m.toNat := Nat.pos_of_ne_zero fun h => hmantissa (BitVec.eq_of_toNat_eq h)
        rw [unpack_subnormal s hpos, pack_subnormal s hpos hm, BitVec.ofNat_toNat]
        exact ⟨⟨by omega, Int.le_refl _, .inr rfl⟩, by simp⟩
    · have hpos : 0 < e.toNat := Nat.pos_of_ne_zero fun h => hzero (BitVec.eq_of_toNat_eq h)
      have hmax : e.toNat < 2047 := by
        have hlt : e.toNat < 2 ^ 11 := e.isLt
        have hne : e.toNat ≠ 2047 := fun h => hones (BitVec.eq_of_toNat_eq h)
        omega
      have hleast : leastExponent ≤ (e.toNat : Int) - 1075 := by
        simp only [leastExponent]
        omega
      rw [unpack_normal s hpos hmax, pack_normal s _ (Nat.le_add_right _ _) (by omega)
        (by simp only [greatestExponent]; omega)]
      refine ⟨⟨by omega, hleast, .inl (Nat.le_add_right _ _)⟩, ?_⟩
      congr 1
      · apply BitVec.eq_of_toNat_eq
        simp only [BitVec.toNat_ofNat]
        omega
      · apply BitVec.eq_of_toNat_eq
        simp only [BitVec.toNat_ofNat]
        omega

theorem canonical_form (x : Float) : Canonical (form x) := (pack_unpack x.toModel.valid).1

theorem ofForm_form (x : Float) : ofForm (form x) = x := by
  obtain ⟨⟨bits, hvalid⟩⟩ := x
  have hpack := (pack_unpack hvalid).2
  simp only [ofForm, form, Float.Model.pack, Float.Model.unpack, hpack]

theorem form_injective {x y : Float} (h : form x = form y) : x = y := by rw [← ofForm_form x, h, ofForm_form]

/-- The form of a number is not too large. -/
theorem clip_form (x : Float) : clip (form x) = form x := by rw [← form_ofForm (canonical_form x), ofForm_form]

theorem exponent_le {x : Float} {s : Sign} {m : Nat} {e : Int} {hm : 0 < m} (h : form x = .finite s m e hm) :
    e ≤ greatestExponent := by
  have hclip := clip_form x
  rw [h, clip] at hclip
  split at hclip
  · cases hclip
  · rename_i hle
    exact Int.not_lt.mp hle

end Ketscript.Binary64
