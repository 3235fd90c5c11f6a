import Ketscript.Text.Digits
import Mathlib.Data.String.Basic

/-! Literals. The digits of a word are read one after the other, and a run of digits that spells none is given up as
    soon as it is past the largest one. What comes of it is the value of the digits where this is a word. -/

namespace Ketscript

namespace Text

theorem unsignedDigits?_eq_self {cs : List Char} (hne : cs ≠ []) (hplus : '+' ∉ cs) :
    unsignedDigits? cs = some cs := by
  unfold unsignedDigits?
  split
  · exact absurd rfl hne
  · exact absurd List.mem_cons_self hplus
  · exact absurd List.mem_cons_self hplus
  · rfl

theorem le_foldl_digits (cs : List Char) (value : Nat) :
    value ≤ cs.foldl (fun value c => 10 * value + digitValue c) value := by
  induction cs generalizing value with
  | nil => exact Nat.le_refl value
  | cons c cs ih =>
    have hnext := ih (10 * value + digitValue c)
    rw [List.foldl_cons]
    omega

/-- The digits after a value are read in full if the value that they lead to is a word. -/
theorem wordOfDigits_eq {cs : List Char} (h : cs.all Char.isDigit) {value : Nat} (hvalue : value ≤ maxWord) :
    let total := cs.foldl (fun value c => 10 * value + digitValue c) value
    wordOfDigits cs value = if total ≤ maxWord then .ok total else .error .tooLarge := by
  induction cs generalizing value with
  | nil => exact (if_pos hvalue).symm
  | cons c cs ih =>
    rw [List.all_cons, Bool.and_eq_true] at h
    simp only [wordOfDigits, h.1, if_true, List.foldl_cons]
    split
    · rename_i hnext
      exact ih h.2 hnext
    · rename_i hnext
      -- The value has passed the largest word, and more digits do not make it smaller.
      have hle := le_foldl_digits cs (10 * value + digitValue c)
      exact (if_neg fun htotal => hnext (Nat.le_trans hle htotal)).symm

theorem wordOfDigits_zero {cs : List Char} (h : cs.all Char.isDigit) :
    wordOfDigits cs 0 =
      if valueOfDigits 10 cs ≤ maxWord then .ok (valueOfDigits 10 cs) else .error .tooLarge :=
  wordOfDigits_eq h (Nat.zero_le _)

/-- A run of digits is read by its value if this is a word. -/
theorem word?_of_isDigits {s : String} (h : isDigits s = true) :
    word? s = if decimalValue s ≤ maxWord then .ok (decimalValue s) else .error .tooLarge := by
  rw [isDigits, Bool.and_eq_true] at h
  obtain ⟨hne, hdigits⟩ := h
  have hne : s.toList ≠ [] := by simpa using hne
  have hplus : '+' ∉ s.toList := fun hmem => absurd (List.all_eq_true.mp hdigits '+' hmem) (by decide)
  simp only [word?, unsignedDigits?_eq_self hne hplus]
  exact wordOfDigits_zero hdigits

theorem toOption_word?_eq_some {s : String} (h : isDigits s = true) {n : Nat} :
    (word? s).toOption = some n ↔ n = decimalValue s ∧ n ≤ maxWord := by
  rw [word?_of_isDigits h]
  split
  · rename_i hword
    constructor
    · rintro ⟨⟩
      exact ⟨rfl, hword⟩
    · rintro ⟨rfl, -⟩
      rfl
  · rename_i hword
    simp only [Except.toOption, reduceCtorEq, false_iff, not_and]
    rintro rfl
    exact hword

/-- As a count, a run of digits is read by its value, and by the largest word if the value is larger. -/
theorem count?_of_isDigits {s : String} (h : isDigits s = true) : count? s = some (min (decimalValue s) maxWord) := by
  rw [count?, word?_of_isDigits h]
  by_cases hword : decimalValue s ≤ maxWord
  · rw [if_pos hword, Nat.min_eq_left hword]
  · rw [if_neg hword, Nat.min_eq_right (Nat.le_of_not_le hword)]

theorem utf8ByteSize_eq_length {s : String} (h : ∀ c ∈ s.toList, c.utf8Size = 1) : s.utf8ByteSize = s.length := by
  rw [← String.utf8Len_toList, ← String.length_toList]
  generalize s.toList = cs at h
  induction cs with
  | nil => rfl
  | cons c cs ih =>
    rw [List.forall_mem_cons] at h
    rw [String.utf8Len_cons, List.length_cons, h.1, ih h.2]

theorem utf8ByteSize_bits {s : String} (h : ∀ c ∈ s.toList, c = '0' ∨ c = '1') : s.utf8ByteSize = s.length :=
  utf8ByteSize_eq_length fun c hc => by rcases h c hc with rfl | rfl <;> rfl

theorem binary?_of_digits {s : String} {digits : List Char} (hdigits : unsignedDigits? s.toList = some digits)
    (h : ∀ c ∈ digits, c = '0' ∨ c = '1') : binary? s = some (valueOfDigits 2 digits) := by
  have hbits : digits.all (fun c => c == '0' || c == '1') := by simpa using h
  simp only [binary?, hdigits, Option.bind_eq_bind, Option.bind_some, hbits, if_true]

theorem binary?_of_bits {s : String} (hne : s.toList ≠ []) (h : ∀ c ∈ s.toList, c = '0' ∨ c = '1') :
    binary? s = some (valueOfDigits 2 s.toList) := by
  have hplus : '+' ∉ s.toList := fun hmem => absurd (h '+' hmem) (by decide)
  exact binary?_of_digits (unsignedDigits?_eq_self hne hplus) h

end Text

end Ketscript
