import Ketscript.Machine.Store
import Mathlib.Algebra.Group.Nat.Defs
import Mathlib.Data.String.Basic

/-! The kets of new registers. A register of `k` qubits has `2 ^ k` amplitudes, from which `k` can be read
    again, and the bits of its initial state spell a place among them. -/

namespace Ketscript

/-! ### Binary literals -/

namespace Text

theorem digitValue_bit {c : Char} (h : (c == '0' || c == '1') = true) : digitValue c < 2 := by
  rw [Bool.or_eq_true, beq_iff_eq, beq_iff_eq] at h
  rcases h with rfl | rfl <;> decide

theorem valueOfDigits_two_lt {cs : List Char} (h : cs.all fun c => c == '0' || c == '1') :
    valueOfDigits 2 cs < 2 ^ cs.length := by
  -- The digits read so far may be any number: each digit doubles it and adds at most one.
  have loop (cs : List Char) (value : Nat) (h : cs.all fun c => c == '0' || c == '1') :
      cs.foldl (fun value c => 2 * value + digitValue c) value < (value + 1) * 2 ^ cs.length := by
    induction cs generalizing value with
    | nil => simp
    | cons c cs ih =>
      rw [List.all_cons, Bool.and_eq_true] at h
      have hc := digitValue_bit h.1
      calc cs.foldl (fun value c => 2 * value + digitValue c) (2 * value + digitValue c)
          < (2 * value + digitValue c + 1) * 2 ^ cs.length := ih _ h.2
        _ ≤ (2 * (value + 1)) * 2 ^ cs.length := Nat.mul_le_mul_right _ (by omega)
        _ = (value + 1) * 2 ^ (cs.length + 1) := by rw [Nat.pow_succ, Nat.mul_comm 2, Nat.mul_assoc, Nat.mul_comm 2]
  simpa [valueOfDigits] using loop cs 0 h

theorem length_unsignedDigits?_le {cs digits : List Char} (h : unsignedDigits? cs = some digits) :
    digits.length ≤ cs.length := by
  unfold unsignedDigits? at h
  split at h
  · cases h
  · cases h
  · cases h
    exact Nat.le_succ _
  · cases h
    exact Nat.le_refl _

theorem length_toList_le_utf8ByteSize (s : String) : s.toList.length ≤ s.utf8ByteSize := by
  rw [← String.utf8Len_toList]
  induction s.toList with
  | nil => exact Nat.zero_le _
  | cons c cs ih =>
    have hpos := c.utf8Size_pos
    rw [String.utf8Len_cons, List.length_cons]
    omega

/-- A binary literal spells a number with at most as many bits as the literal has bytes. -/
theorem binary?_lt {s : String} {n : Nat} (h : binary? s = some n) : n < 2 ^ s.utf8ByteSize := by
  simp only [binary?, Option.bind_eq_bind, Option.bind_eq_some_iff] at h
  obtain ⟨digits, hdigits, h⟩ := h
  split at h
  · rename_i hbits
    cases h
    calc valueOfDigits 2 digits
        < 2 ^ digits.length := valueOfDigits_two_lt hbits
      _ ≤ 2 ^ s.utf8ByteSize := Nat.pow_le_pow_right Nat.two_pos
          (Nat.le_trans (length_unsignedDigits?_le hdigits) (length_toList_le_utf8ByteSize s))
  · cases h

end Text

/-- The bits of an initial state spell a place in a ket of as many qubits. -/
theorem Store.basisIndex?_lt {k index : Nat} {bits : Option String} (h : basisIndex? k bits = .ok index) :
    index < 2 ^ k := by
  cases bits with
  | none =>
    cases h
    exact Nat.two_pow_pos k
  | some bits =>
    simp only [basisIndex?] at h
    split at h
    · cases h
    · rename_i hsize
      rw [Classical.not_not] at hsize
      split at h
      · rename_i hbinary
        cases h
        exact hsize ▸ Text.binary?_lt hbinary
      · cases h

/-! ### Qubits -/

namespace Ket

theorem trailingZeros_two_pow {k bound : Nat} (h : k ≤ bound) : trailingZeros bound (2 ^ k) = k := by
  induction k generalizing bound with
  | zero => cases bound <;> rfl
  | succ k ih =>
    obtain ⟨bound, rfl⟩ : ∃ b, bound = b + 1 := ⟨bound - 1, by omega⟩
    have heven : 2 ^ (k + 1) % 2 = 0 := by rw [Nat.pow_succ, Nat.mul_mod_left]
    have hhalf : 2 ^ (k + 1) / 2 = 2 ^ k := by rw [Nat.pow_succ, Nat.mul_div_cancel _ Nat.two_pos]
    rw [trailingZeros, if_pos heven, hhalf, ih (Nat.le_of_succ_le_succ h)]

theorem qubits_of_size {K : Type} {v : Ket K} {k : Nat} (hv : v.size = 2 ^ k) (hk : k ≤ maxQubits) :
    v.qubits = k := by
  rw [qubits, hv]
  exact trailingZeros_two_pow (Nat.le_trans hk (by decide))

end Ket
end Ketscript
