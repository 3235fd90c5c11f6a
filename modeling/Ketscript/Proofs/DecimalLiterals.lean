import Ketscript.Binary64.Scalar
import Ketscript.Proofs.Lines
import Mathlib.Data.Nat.Digits.Defs

/-! Decimal literals of any length. The number of qubits of a register, the number of bits of its initial state and the
    dimension of an identity are each read by their own rule, and all three rules give the value of the digits: leading
    zeros do not count, and a value beyond the largest word is too large for each of them, never another value. -/

namespace Ketscript

namespace Text

/-- Digits are read with their places: the last one counts ones, the one before it tens, and so on. -/
theorem decimalValue_eq_ofDigits (s : String) :
    decimalValue s = Nat.ofDigits 10 (s.toList.reverse.map digitValue) := by
  rw [decimalValue, valueOfDigits, Nat.ofDigits_eq_foldr, List.foldr_map, List.foldr_reverse]
  exact List.foldl_ext _ _ _ fun value c _ => Nat.add_comm _ _

end Text

/-! ### Lines with an initial state -/

/-- A line with a name, digits and bits is accepted if there is a bit for every qubit, as many as a word can count. -/
theorem Token.exists_ofLine_prepare {register digits bits : String} (hname : isName register = true)
    (hdigits : Text.isDigits digits = true) (hbits : ∀ c ∈ bits.toList, c = '0' ∨ c = '1') :
    (∃ tokens, ofLine (Instruction.render (.prepare register digits (some bits))) = .ok tokens) ↔
      Text.decimalValue digits = bits.length ∧ bits.length ≤ Text.maxWord := by
  have hspace : ∀ field ∈ [Keyword.prepare.spelling, register, digits, "[" ++ bits ++ "]"], ' ' ∉ field.toList := by
    have hbits : ' ' ∉ bits.toList := fun hmem => absurd (hbits ' ' hmem) (by decide)
    have hword : ' ' ∉ Keyword.prepare.spelling.toList := by decide
    simp [hword, space_not_mem_of_isName hname, space_not_mem_of_isDigits hdigits, hbits]
  have hfields : Text.fields ' ' (Instruction.render (.prepare register digits (some bits))) =
      [Keyword.prepare.spelling, register, digits, "[" ++ bits ++ "]"] := by
    rw [Instruction.render_eq]
    exact Text.fields_intercalate (List.cons_ne_nil _ _) hspace
  have hword : Keyword.ofSpelling? Keyword.prepare.spelling = some .prepare := Keyword.ofSpelling?_eq_some.mpr rfl
  simp only [ofLine, hfields, hword, prepareTokens, bind_eq_ok, pure_eq_ok, name?_eq_ok, number?_eq_ok,
    state?_eq_ok hdigits]
  constructor
  · rintro ⟨_, _, -, _, -, _, ⟨bits', hfield, ⟨-, hlength, hword⟩, -⟩, -⟩
    obtain rfl : bits = bits' := by simpa [← String.toList_inj] using hfield
    exact ⟨hlength.symm, hword⟩
  · rintro ⟨hlength, hword⟩
    exact ⟨_, _, ⟨hname, rfl⟩, _, ⟨hdigits, rfl⟩, _, ⟨bits, rfl, ⟨hbits, hlength.symm, hword⟩, rfl⟩, rfl⟩

/-! ### Identities -/

theorem Builtin.ofName?_identity {digits : String} (h : Text.isDigits digits = true) :
    ofName? ("I" ++ digits) = some (.identity (min (Text.decimalValue digits) Text.maxWord)) := by
  have hname : ("I" ++ digits).toList = 'I' :: digits.toList := by simp [String.toList_append]
  rw [Text.isDigits, Bool.and_eq_true] at h
  obtain ⟨hne, hdigits⟩ := h
  have hne : digits.toList.isEmpty = false := by simpa using hne
  have hvalue : (Text.wordOfDigits digits.toList 0).toOption.getD Text.maxWord =
      min (Text.decimalValue digits) Text.maxWord := by
    rw [Text.wordOfDigits_zero hdigits, ← Text.decimalValue]
    by_cases hword : Text.decimalValue digits ≤ Text.maxWord
    · rw [if_pos hword, Nat.min_eq_left hword]
      rfl
    · rw [if_neg hword, Nat.min_eq_right (Nat.le_of_not_le hword)]
      rfl
  rw [ofName?, hname]
  simp [hne, hdigits, hvalue]

namespace Machine
variable {K R : Type} [RealScalar R] [Amplitude K R] [Add K] [Mul K] [Zero K] [One K] [BEq K]

/-- A line that asks for a register of a decimal number of qubits. -/
theorem execute_prepare_digits (words : Nat → UInt64) {m : Machine K} {register digits : String}
    (hname : isName register = true) (hgate : m.store.gateExists register = false)
    (hdigits : Text.isDigits digits = true) :
    m.execute words (Instruction.render (.prepare register digits none)) =
      if 1 ≤ Text.decimalValue digits ∧ Text.decimalValue digits ≤ maxQubits then
        (.ok none, { m with store := { m.store with
          registers := m.store.registers.insert register (Ket.basis (2 ^ Text.decimalValue digits) 0) } })
      else (.error (.qubitCount (min (Text.decimalValue digits) Text.maxWord)), m) := by
  have hline : Instruction.WellFormed (.prepare register digits none) := ⟨hname, hdigits, by simp⟩
  have hcount := Text.count?_of_isDigits hdigits
  have hword : maxQubits < Text.maxWord := by decide
  obtain ⟨hbuiltin, hdefined⟩ := Bool.or_eq_false_iff.mp hgate
  rw [(execute_render _).2.2 hline]
  generalize Text.decimalValue digits = v at hcount
  split
  · rename_i hrange
    rw [Nat.min_eq_left (by omega)] at hcount
    rw [(Step.prepare hcount hbuiltin hdefined hrange rfl).run_eq, Nat.one_shiftLeft]
  · rename_i hrange
    have hrange : ¬(1 ≤ min v Text.maxWord ∧ min v Text.maxWord ≤ maxQubits) := by omega
    rw [run_prepare words m (qubitCount_eq_ok.mpr hcount), Store.on_create, if_neg (by simp [hbuiltin]),
      if_neg (by simp [hdefined]), if_pos hrange]
    rfl

/-- On any machine and for digits of any length and value `v`: a line that asks for `v` qubits under a name that is no
    gate's makes a register of `2 ^ v` amplitudes if `v` is from one to the maximum, and otherwise is refused because
    of `v`, or of the largest word if `v` is larger. With bits behind it such a line is accepted exactly if there are
    `v` of them, and this is a word, as the length of a text is. An identity of dimension `v` does not exist if `v` is zero, has that dimension up to the maximum, and
    is too large above it. -/
theorem decimal_literals (words : Nat → UInt64) (m : Machine K) {digits : String}
    (hdigits : Text.isDigits digits = true) :
    let v := Nat.ofDigits 10 (digits.toList.reverse.map Text.digitValue)
    (∀ register, isName register = true → m.store.gateExists register = false →
      m.execute words s!"INITIALIZE {register} {digits}" =
        if 1 ≤ v ∧ v ≤ maxQubits then
          (.ok none, { m with store := { m.store with
            registers := m.store.registers.insert register (Ket.basis (2 ^ v) 0) } })
        else (.error (.qubitCount (min v Text.maxWord)), m)) ∧
      (∀ register bits : String, isName register = true → (∀ c ∈ bits.toList, c = '0' ∨ c = '1') →
        ((∃ tokens, Token.ofLine s!"INITIALIZE {register} {digits} [{bits}]" = .ok tokens) ↔
          v = bits.length ∧ bits.length ≤ Text.maxWord)) ∧
      (v = 0 → m.store.resolve ("I" ++ digits) = .error (.noGate ("I" ++ digits))) ∧
      (∀ hpos : 0 < v, v ≤ maxGateDimension → m.store.resolve ("I" ++ digits) = .ok (Matrix.identity v hpos)) ∧
      (maxGateDimension < v → m.store.resolve ("I" ++ digits) = .error (.gateTooLarge (min v Text.maxWord))) := by
  rw [← Text.decimalValue_eq_ofDigits]
  have hresolve : m.store.resolve ("I" ++ digits) =
      (Builtin.identity (min (Text.decimalValue digits) Text.maxWord)).matrix? ("I" ++ digits) :=
    m.store.resolve_of_ofName? (Builtin.ofName?_identity hdigits)
  rw [Builtin.matrix?_identity] at hresolve
  have hword : maxGateDimension < Text.maxWord := by decide
  intro v
  refine ⟨fun register hname hgate => execute_prepare_digits words hname hgate hdigits, fun register bits hname hbits =>
    Token.exists_ofLine_prepare hname hdigits hbits, fun hzero => ?_, fun hpos hmax => ?_, fun hlarge => ?_⟩
  · have hzero : Text.decimalValue digits = 0 := hzero
    simp [hresolve, hzero]
  · have hvalue : min (Text.decimalValue digits) Text.maxWord = v := Nat.min_eq_left (by omega)
    simp only [hvalue] at hresolve
    rw [hresolve, if_neg (Nat.not_lt.mpr hmax), dif_pos hpos]
  · rw [hresolve, if_pos (Nat.lt_min.mpr ⟨hlarge, hword⟩)]

/-- The digits of `2 ^ 64` after a zero. -/
theorem decimal_literals_past_words :
    let m : Machine FloatComplex := fresh
    let digits := "018446744073709551616"
    (Text.isDigits digits = true ∧ isName "Q" = true ∧ m.store.gateExists "Q" = false) ∧
      m.execute (fun _ => 0) "INITIALIZE Q 018446744073709551616" = (.error (.qubitCount (2 ^ 64 - 1)), m) ∧
      (¬∃ tokens, Token.ofLine "INITIALIZE Q 018446744073709551616 []" = .ok tokens) ∧
      m.store.resolve "I018446744073709551616" = .error (.gateTooLarge (2 ^ 64 - 1)) := by
  intro m digits
  have hdigits : Text.isDigits digits = true := by decide
  have hname : isName "Q" = true := by decide
  have hgate : m.store.gateExists "Q" = false := by decide
  have hvalue : Nat.ofDigits 10 (digits.toList.reverse.map Text.digitValue) = 2 ^ 64 := by decide
  obtain ⟨hprepare, hstate, -, -, hlarge⟩ := decimal_literals (fun _ => 0) m hdigits
  have hprepare := hprepare "Q" hname hgate
  have hstate := hstate "Q" "" hname (by simp)
  rw [hvalue] at hprepare hstate hlarge
  refine ⟨⟨hdigits, hname, hgate⟩, hprepare, ?_, hlarge (by decide)⟩
  rintro htokens
  exact absurd (hstate.mp htokens).1 (by decide)

end Machine
end Ketscript
