import Ketscript.Language.Instruction
import Ketscript.Proofs.Checks
import Ketscript.Proofs.Fields
import Ketscript.Proofs.Literals
import Mathlib.Data.List.Basic

/-! The lines that spell instructions. An instruction has the fields that its line is cut into, and the tokens
    that it is read from. The lexer accepts the fields of well-formed instructions and no others, and turns them
    into their tokens. So a line is read as an instruction exactly if the instruction is well formed and the
    line is the one that it is written as. -/

namespace Ketscript

namespace Keyword

/-- The words that begin a statement. No gate can be defined under one of them. -/
def statements : List Keyword := [prepare, select, apply, measure]

/-- How many operands a definition with the keyword has. -/
def operandCount? : Keyword → Option Nat
  | concat | tensor => some 2
  | inverse => some 1
  | prepare | select | apply | measure => none

theorem ofSpelling?_eq_some {s : String} {word : Keyword} : ofSpelling? s = some word ↔ s = word.spelling := by
  constructor
  · intro h
    unfold ofSpelling? at h
    have hword := List.find?_some h
    exact (beq_iff_eq.mp hword).symm
  · rintro rfl
    cases word <;> decide

end Keyword

/-- An initial state for as many qubits as the literal says, one bit each. The last condition holds of every text
    that a memory can hold: its length is a word. -/
def IsState (qubits bits : String) : Prop :=
  (∀ c ∈ bits.toList, c = '0' ∨ c = '1') ∧ bits.length = Text.decimalValue qubits ∧ bits.length ≤ Text.maxWord

instance (qubits bits : String) : Decidable (IsState qubits bits) := inferInstanceAs (Decidable (_ ∧ _))

/-- A name under which a line can define a gate. -/
def IsGateName (name : String) : Prop := isName name ∧ ∀ word ∈ Keyword.statements, name ≠ word.spelling

instance (name : String) : Decidable (IsGateName name) := inferInstanceAs (Decidable (_ ∧ _))

namespace Instruction

/-- Names are names, numbers are numbers, and an initial state has a bit for every qubit. -/
def WellFormed : Instruction → Prop
  | prepare register qubits state => isName register ∧ Text.isDigits qubits ∧ ∀ bits ∈ state, IsState qubits bits
  | select target source start length =>
    isName target ∧ isName source ∧ Text.isDigits start ∧ Text.isDigits length
  | concat name left right | tensor name left right => IsGateName name ∧ isName left ∧ isName right
  | inverse name gate => IsGateName name ∧ isName gate
  | apply gate register => isName gate ∧ isName register
  | measure register => isName register

instance : DecidablePred WellFormed
  | prepare .. | select .. | concat .. | tensor .. | inverse .. | apply .. => inferInstanceAs (Decidable (_ ∧ _))
  | measure register => inferInstanceAs (Decidable (isName register = true))

/-- The fields of the line that reads as the instruction. -/
def fields : Instruction → List String
  | prepare register qubits none => [Keyword.prepare.spelling, register, qubits]
  | prepare register qubits (some bits) => [Keyword.prepare.spelling, register, qubits, "[" ++ bits ++ "]"]
  | select target source start length => [Keyword.select.spelling, target, source, start, length]
  | concat name left right => [name, Keyword.concat.spelling, left, right]
  | tensor name left right => [name, Keyword.tensor.spelling, left, right]
  | inverse name gate => [name, Keyword.inverse.spelling, gate]
  | apply gate register => [Keyword.apply.spelling, gate, register]
  | measure register => [Keyword.measure.spelling, register]

/-- The tokens from which the instruction is read. -/
def tokens : Instruction → List Token
  | prepare register qubits none => [.keyword .prepare, .identifier register, .literal qubits]
  | prepare register qubits (some bits) =>
    [.keyword .prepare, .identifier register, .literal qubits, .separator '[', .literal bits, .separator ']']
  | select target source start length =>
    [.keyword .select, .identifier target, .identifier source, .literal start, .literal length]
  | concat name left right => [.identifier name, .keyword .concat, .identifier left, .identifier right]
  | tensor name left right => [.identifier name, .keyword .tensor, .identifier left, .identifier right]
  | inverse name gate => [.identifier name, .keyword .inverse, .identifier gate]
  | apply gate register => [.keyword .apply, .identifier gate, .identifier register]
  | measure register => [.keyword .measure, .identifier register]

theorem ofTokens?_tokens (i : Instruction) : ofTokens? i.tokens = .ok i := by
  cases i with
  | prepare register qubits state => cases state <;> rfl
  | select | concat | tensor | inverse | apply | measure => rfl

theorem render_eq (i : Instruction) : i.render = (String.singleton ' ').intercalate i.fields := by
  apply String.toList_injective
  rw [String.toList_intercalate]
  unfold render
  cases i with
  | prepare register qubits state =>
    cases state <;> simp [fields, Keyword.spelling, toString, List.intercalate]
  | select | concat | tensor | inverse | apply | measure =>
    simp [fields, Keyword.spelling, toString, List.intercalate]

end Instruction

/-! ### The lexer -/

namespace Token
variable {rest : List String} {tokens : List Token}

theorem name?_eq_ok {field : String} {token : Token} :
    name? field = .ok token ↔ isName field = true ∧ token = .identifier field := by
  unfold name?
  cases isName field <;> simp [eq_comm]

theorem number?_eq_ok {field : String} {cause : SyntaxError} {token : Token} :
    number? field cause = .ok token ↔ Text.isDigits field = true ∧ token = .literal field := by
  unfold number?
  cases Text.isDigits field <;> simp [eq_comm]

theorem unbracket?_eq_some {field bits : String} : unbracket? field = some bits ↔ field = "[" ++ bits ++ "]" := by
  have htext : field = "[" ++ bits ++ "]" ↔ field.toList = '[' :: (bits.toList ++ [']']) := by
    rw [← String.toList_inj]
    simp
  rw [htext]
  unfold unbracket?
  split
  · rename_i rest h
    rw [h, List.cons.injEq]
    constructor
    · intro hbits
      split at hbits
      · rename_i hlast
        obtain ⟨inner, rfl⟩ := List.getLast?_eq_some_iff.mp hlast
        cases hbits
        simp
      · cases hbits
    · rintro ⟨-, rfl⟩
      simp
  · rename_i h
    simp only [reduceCtorEq, false_iff]
    exact h _

theorem state?_eq_ok {qubits field : String} (hqubits : Text.isDigits qubits = true) :
    state? qubits field = .ok tokens ↔ ∃ bits, field = "[" ++ bits ++ "]" ∧ IsState qubits bits ∧
      tokens = [.separator '[', .literal bits, .separator ']'] := by
  unfold state?
  cases hbits : unbracket? field with
  | none =>
    simp only [reduceCtorEq, false_iff]
    rintro ⟨bits, hfield, -⟩
    cases hbits.symm.trans (unbracket?_eq_some.mpr hfield)
  | some bits =>
    have hbinary : (bits.toList.any fun c => c != '0' && c != '1') = true ↔
        ¬∀ c ∈ bits.toList, c = '0' ∨ c = '1' := by simp [not_or]
    have hfield (bits' : String) : field = "[" ++ bits' ++ "]" ↔ bits = bits' := by
      rw [← unbracket?_eq_some, hbits, Option.some.injEq]
    simp only [hfield, exists_eq_left', hbinary, ne_eq, Text.toOption_word?_eq_some hqubits]
    split
    · rename_i h
      simp [IsState, h]
    · split
      · rename_i h
        simp only [reduceCtorEq, false_iff, not_and]
        exact fun hstate => absurd hstate.2 h
      · rename_i h h'
        rw [Classical.not_not] at h h'
        have hstate : IsState qubits bits := ⟨h, h'⟩
        simp [hstate, eq_comm]

theorem mapM_name?_eq_ok {operands : List String} : operands.mapM name? = .ok tokens ↔
    (∀ name ∈ operands, isName name = true) ∧ tokens = operands.map .identifier := by
  induction operands generalizing tokens with
  | nil => simp [pure_eq_ok]
  | cons name operands ih =>
    simp only [List.mapM_cons, bind_eq_ok, pure_eq_ok, name?_eq_ok, ih, List.forall_mem_cons, List.map_cons]
    constructor
    · rintro ⟨_, ⟨hname, rfl⟩, _, ⟨hoperands, rfl⟩, rfl⟩
      exact ⟨⟨hname, hoperands⟩, rfl⟩
    · rintro ⟨⟨hname, hoperands⟩, rfl⟩
      exact ⟨_, ⟨hname, rfl⟩, _, ⟨hoperands, rfl⟩, rfl⟩

/-- The fields and the tokens of one well-formed instruction. -/
def Spelled (fields : List String) (tokens : List Token) : Prop :=
  ∃ i : Instruction, i.WellFormed ∧ fields = i.fields ∧ tokens = i.tokens

theorem spelled_prepareTokens (h : prepareTokens rest = .ok tokens) :
    Spelled (Keyword.prepare.spelling :: rest) tokens := by
  unfold prepareTokens at h
  split at h
  · rename_i register qubits
    simp only [bind_eq_ok, pure_eq_ok, name?_eq_ok, number?_eq_ok] at h
    obtain ⟨_, ⟨hregister, rfl⟩, _, ⟨hqubits, rfl⟩, rfl⟩ := h
    exact ⟨.prepare register qubits none, ⟨hregister, hqubits, by simp⟩, rfl, rfl⟩
  · rename_i register qubits state
    simp only [bind_eq_ok, pure_eq_ok, name?_eq_ok, number?_eq_ok] at h
    obtain ⟨_, ⟨hregister, rfl⟩, _, ⟨hqubits, rfl⟩, _, hstate, rfl⟩ := h
    obtain ⟨bits, rfl, hbits, rfl⟩ := (state?_eq_ok hqubits).mp hstate
    exact ⟨.prepare register qubits (some bits), ⟨hregister, hqubits, by simpa using hbits⟩, rfl, rfl⟩
  · cases h

theorem spelled_selectTokens (h : selectTokens rest = .ok tokens) :
    Spelled (Keyword.select.spelling :: rest) tokens := by
  unfold selectTokens at h
  split at h
  · rename_i target source start length
    simp only [bind_eq_ok, pure_eq_ok, name?_eq_ok, number?_eq_ok] at h
    obtain ⟨_, ⟨htarget, rfl⟩, _, ⟨hsource, rfl⟩, _, ⟨hstart, rfl⟩, _, ⟨hlength, rfl⟩, rfl⟩ := h
    exact ⟨.select target source start length, ⟨htarget, hsource, hstart, hlength⟩, rfl, rfl⟩
  · cases h

theorem spelled_applyTokens (h : applyTokens rest = .ok tokens) :
    Spelled (Keyword.apply.spelling :: rest) tokens := by
  unfold applyTokens at h
  split at h
  · rename_i gate register
    simp only [bind_eq_ok, pure_eq_ok, name?_eq_ok] at h
    obtain ⟨_, ⟨hgate, rfl⟩, _, ⟨hregister, rfl⟩, rfl⟩ := h
    exact ⟨.apply gate register, ⟨hgate, hregister⟩, rfl, rfl⟩
  · cases h

theorem spelled_measureTokens (h : measureTokens rest = .ok tokens) :
    Spelled (Keyword.measure.spelling :: rest) tokens := by
  unfold measureTokens at h
  split at h
  · rename_i register
    simp only [bind_eq_ok, pure_eq_ok, name?_eq_ok] at h
    obtain ⟨_, ⟨hregister, rfl⟩, rfl⟩ := h
    exact ⟨.measure register, hregister, rfl, rfl⟩
  · cases h

theorem operandTokens_eq_ok {name : String} {opening : Token} {word : Keyword} {count : Nat} :
    definitionTokens.operandTokens name opening word count rest = .ok tokens ↔
      rest.length = count ∧ (∀ operand ∈ rest, isName operand = true) ∧
        tokens = opening :: .keyword word :: rest.map .identifier := by
  unfold definitionTokens.operandTokens
  by_cases hcount : rest.length = count
  · simp only [hcount, ne_eq, not_true_eq_false, if_false, bind_eq_ok, pure_eq_ok, mapM_name?_eq_ok, true_and]
    constructor
    · rintro ⟨_, ⟨hnames, rfl⟩, rfl⟩
      exact ⟨hnames, rfl⟩
    · rintro ⟨hnames, rfl⟩
      exact ⟨_, ⟨hnames, rfl⟩, rfl⟩
  · simp [hcount, bind, Except.bind]

theorem definitionTokens_eq_ok {name : String} : definitionTokens name rest = .ok tokens ↔
    isName name = true ∧ ∃ word operands, rest = word.spelling :: operands ∧
      word.operandCount? = some operands.length ∧ (∀ operand ∈ operands, isName operand = true) ∧
        tokens = .identifier name :: .keyword word :: operands.map .identifier := by
  simp only [definitionTokens, bind_eq_ok, name?_eq_ok]
  constructor
  · rintro ⟨_, ⟨hname, rfl⟩, h⟩
    refine ⟨hname, ?_⟩
    cases rest with
    | nil => cases h
    | cons first operands =>
      cases hfirst : Keyword.ofSpelling? first with
      | none => simp [hfirst] at h
      | some word =>
        obtain rfl := Keyword.ofSpelling?_eq_some.mp hfirst
        cases word with
        | concat | tensor | inverse =>
          simp only [hfirst] at h
          obtain ⟨hcount, h⟩ := operandTokens_eq_ok.mp h
          exact ⟨_, operands, rfl, congrArg some hcount.symm, h⟩
        | prepare | select | apply | measure => simp [hfirst] at h
  · rintro ⟨hname, word, operands, rfl, hcount, h⟩
    refine ⟨_, ⟨hname, rfl⟩, ?_⟩
    simp only [Keyword.ofSpelling?_eq_some.mpr rfl]
    cases word with
    | concat | tensor | inverse => exact operandTokens_eq_ok.mpr ⟨(Option.some.inj hcount).symm, h⟩
    | prepare | select | apply | measure => cases hcount

theorem spelled_definitionTokens {name : String} (hname : ∀ word ∈ Keyword.statements, name ≠ word.spelling)
    (h : definitionTokens name rest = .ok tokens) : Spelled (name :: rest) tokens := by
  obtain ⟨hisName, word, operands, rfl, hcount, hnames, rfl⟩ := definitionTokens_eq_ok.mp h
  have hcount := hcount.symm
  cases word with
  | concat =>
    obtain ⟨left, right, rfl⟩ := List.length_eq_two.mp (Option.some.inj hcount)
    exact ⟨.concat name left right, ⟨⟨hisName, hname⟩, by simpa using hnames⟩, rfl, rfl⟩
  | tensor =>
    obtain ⟨left, right, rfl⟩ := List.length_eq_two.mp (Option.some.inj hcount)
    exact ⟨.tensor name left right, ⟨⟨hisName, hname⟩, by simpa using hnames⟩, rfl, rfl⟩
  | inverse =>
    obtain ⟨gate, rfl⟩ := List.length_eq_one_iff.mp (Option.some.inj hcount)
    exact ⟨.inverse name gate, ⟨⟨hisName, hname⟩, by simpa using hnames⟩, rfl, rfl⟩
  | prepare | select | apply | measure => cases hcount

/-- A line that begins with no statement's word is a definition. -/
theorem ofLine_definition {name line : String} (hfields : Text.fields ' ' line = name :: rest)
    (hname : ∀ word ∈ Keyword.statements, name ≠ word.spelling) : ofLine line = definitionTokens name rest := by
  simp only [ofLine, hfields]
  cases hfirst : Keyword.ofSpelling? name with
  | none => rfl
  | some word =>
    have hword : word ∉ Keyword.statements := fun hmem => hname word hmem (Keyword.ofSpelling?_eq_some.mp hfirst)
    cases word with
    | prepare | select | apply | measure => exact absurd (by decide) hword
    | concat | tensor | inverse => rfl

theorem spelled_ofLine {line : String} (h : ofLine line = .ok tokens) : Spelled (Text.fields ' ' line) tokens := by
  cases hfields : Text.fields ' ' line with
  | nil => simp [ofLine, hfields] at h
  | cons first rest =>
    by_cases hfirst : ∀ word ∈ Keyword.statements, first ≠ word.spelling
    · rw [ofLine_definition hfields hfirst] at h
      exact spelled_definitionTokens hfirst h
    · -- Otherwise the first field is the word of a statement, which says how the rest is read.
      simp only [not_forall, Classical.not_not] at hfirst
      obtain ⟨word, hword, rfl⟩ := hfirst
      simp only [ofLine, hfields, Keyword.ofSpelling?_eq_some.mpr rfl] at h
      cases word with
      | prepare => exact spelled_prepareTokens h
      | select => exact spelled_selectTokens h
      | apply => exact spelled_applyTokens h
      | measure => exact spelled_measureTokens h
      | concat | tensor | inverse => exact absurd hword (by decide)

theorem ofLine_of_fields {i : Instruction} (h : i.WellFormed) {line : String}
    (hfields : Text.fields ' ' line = i.fields) : ofLine line = .ok i.tokens := by
  have hword (word : Keyword) : Keyword.ofSpelling? word.spelling = some word := Keyword.ofSpelling?_eq_some.mpr rfl
  cases i with
  | prepare register qubits state =>
    obtain ⟨hregister, hqubits, hstate⟩ := h
    cases state with
    | none =>
      simp only [ofLine, hfields, Instruction.fields, hword, prepareTokens, bind_eq_ok, pure_eq_ok, name?_eq_ok,
        number?_eq_ok]
      exact ⟨_, ⟨hregister, rfl⟩, _, ⟨hqubits, rfl⟩, rfl⟩
    | some bits =>
      simp only [ofLine, hfields, Instruction.fields, hword, prepareTokens, bind_eq_ok, pure_eq_ok, name?_eq_ok,
        number?_eq_ok, state?_eq_ok hqubits]
      exact ⟨_, ⟨hregister, rfl⟩, _, ⟨hqubits, rfl⟩, _, ⟨bits, rfl, hstate bits rfl, rfl⟩, rfl⟩
  | select target source start length =>
    obtain ⟨htarget, hsource, hstart, hlength⟩ := h
    simp only [ofLine, hfields, Instruction.fields, hword, selectTokens, bind_eq_ok, pure_eq_ok, name?_eq_ok,
      number?_eq_ok]
    exact ⟨_, ⟨htarget, rfl⟩, _, ⟨hsource, rfl⟩, _, ⟨hstart, rfl⟩, _, ⟨hlength, rfl⟩, rfl⟩
  | concat | tensor | inverse =>
    obtain ⟨⟨hisName, hname⟩, hoperands⟩ := h
    rw [ofLine_definition hfields hname, definitionTokens_eq_ok]
    exact ⟨hisName, _, _, rfl, rfl, by simpa using hoperands, rfl⟩
  | apply gate register =>
    obtain ⟨hgate, hregister⟩ := h
    simp only [ofLine, hfields, Instruction.fields, hword, applyTokens, bind_eq_ok, pure_eq_ok, name?_eq_ok]
    exact ⟨_, ⟨hgate, rfl⟩, _, ⟨hregister, rfl⟩, rfl⟩
  | measure register =>
    simp only [ofLine, hfields, Instruction.fields, hword, measureTokens, bind_eq_ok, pure_eq_ok, name?_eq_ok]
    exact ⟨_, ⟨h, rfl⟩, rfl⟩

end Token

/-! ### Lines -/

theorem space_not_mem {p : Char → Bool} {s : String} (h : s.toList.all p = true) (hp : p ' ' = false) :
    ' ' ∉ s.toList := by
  intro hspace
  cases hp.symm.trans (List.all_eq_true.mp h ' ' hspace)

theorem space_not_mem_of_isName {s : String} (h : isName s = true) : ' ' ∉ s.toList := by
  rw [isName, Bool.and_eq_true] at h
  exact space_not_mem h.2 (by decide)

theorem space_not_mem_of_isDigits {s : String} (h : Text.isDigits s = true) : ' ' ∉ s.toList := by
  rw [Text.isDigits, Bool.and_eq_true] at h
  exact space_not_mem h.2 (by decide)

namespace Instruction
variable {i : Instruction} {line : String}

theorem WellFormed.space_not_mem (h : i.WellFormed) : ∀ field ∈ i.fields, ' ' ∉ field.toList := by
  have hword (word : Keyword) : ' ' ∉ word.spelling.toList := by cases word <;> decide
  cases i with
  | prepare register qubits state =>
    obtain ⟨hregister, hqubits, hstate⟩ := h
    cases state with
    | none => simp [fields, hword, space_not_mem_of_isName hregister, space_not_mem_of_isDigits hqubits]
    | some bits =>
      have hbits : ' ' ∉ bits.toList := fun hspace => absurd ((hstate bits rfl).1 ' ' hspace) (by decide)
      simp [fields, hword, space_not_mem_of_isName hregister, space_not_mem_of_isDigits hqubits, hbits]
  | select target source start length =>
    obtain ⟨htarget, hsource, hstart, hlength⟩ := h
    simp [fields, hword, space_not_mem_of_isName htarget, space_not_mem_of_isName hsource,
      space_not_mem_of_isDigits hstart, space_not_mem_of_isDigits hlength]
  | concat name left right | tensor name left right =>
    obtain ⟨⟨hname, -⟩, hleft, hright⟩ := h
    simp [fields, hword, space_not_mem_of_isName hname, space_not_mem_of_isName hleft,
      space_not_mem_of_isName hright]
  | inverse name gate =>
    obtain ⟨⟨hname, -⟩, hgate⟩ := h
    simp [fields, hword, space_not_mem_of_isName hname, space_not_mem_of_isName hgate]
  | apply gate register =>
    simp [fields, hword, space_not_mem_of_isName h.1, space_not_mem_of_isName h.2]
  | measure register => simp [fields, hword, space_not_mem_of_isName h]

theorem fields_ne_nil (i : Instruction) : i.fields ≠ [] := by
  cases i with
  | prepare register qubits state => cases state <;> exact List.cons_ne_nil _ _
  | _ => exact List.cons_ne_nil _ _

/-- A well-formed instruction is written as the only line that has its fields. -/
theorem fields_eq_iff (h : i.WellFormed) : Text.fields ' ' line = i.fields ↔ line = i.render := by
  rw [render_eq]
  -- Every line is its fields joined, but only fields without a space are what their join is cut into.
  constructor
  · intro hfields
    rw [← hfields, Text.intercalate_fields]
  · rintro rfl
    exact Text.fields_intercalate i.fields_ne_nil h.space_not_mem

end Instruction

namespace Token
variable {line : String} {tokens : List Token}

/-- The lexer accepts the lines of well-formed instructions, and gives their tokens. -/
theorem ofLine_eq_ok : ofLine line = .ok tokens ↔
    ∃ i : Instruction, i.WellFormed ∧ line = i.render ∧ tokens = i.tokens := by
  constructor
  · intro h
    obtain ⟨i, hi, hfields, rfl⟩ := spelled_ofLine h
    exact ⟨i, hi, (Instruction.fields_eq_iff hi).mp hfields, rfl⟩
  · rintro ⟨i, hi, hline, rfl⟩
    exact ofLine_of_fields hi ((Instruction.fields_eq_iff hi).mpr hline)

end Token

namespace Instruction
variable {i : Instruction} {line : String}

/-- A line is read as an instruction exactly if the instruction is well formed and written as the line. -/
theorem ofLine?_eq_ok : ofLine? line = .ok i ↔ i.WellFormed ∧ line = i.render := by
  simp only [ofLine?, bind_eq_ok, Token.ofLine_eq_ok]
  constructor
  · rintro ⟨_, ⟨j, hj, hline, rfl⟩, hi⟩
    cases (ofTokens?_tokens j).symm.trans hi
    exact ⟨hj, hline⟩
  · rintro ⟨hi, hline⟩
    exact ⟨_, ⟨i, hi, hline, rfl⟩, ofTokens?_tokens i⟩

-- Under the name `APPLY` a definition is written as a line that applies a gate.
example : ofLine? (inverse "APPLY" "H").render = .ok (apply "INVERSE" "H") := by decide

/-- What the lexer makes of a line is read as an instruction that is written as the line, and no other line is
    read as that instruction. -/
theorem render_of_ofLine {tokens : List Token} (h : Token.ofLine line = .ok tokens) :
    ∃ i, ofTokens? tokens = .ok i ∧ i.render = line ∧ Token.ofLine i.render = .ok tokens ∧
      ∀ other, ofLine? other = .ok i → other = line := by
  obtain ⟨i, hi, rfl, rfl⟩ := Token.ofLine_eq_ok.mp h
  exact ⟨i, ofTokens?_tokens i, rfl, h, fun other hother => (ofLine?_eq_ok.mp hother).2⟩

theorem render_of_ofLine_state :
    Token.ofLine "INITIALIZE Qé 4 [0110]" = .ok (prepare "Qé" "4" (some "0110")).tokens ∧
      ∃ i, ofTokens? (prepare "Qé" "4" (some "0110")).tokens = .ok i ∧ i.render = "INITIALIZE Qé 4 [0110]" ∧
        Token.ofLine i.render = .ok (prepare "Qé" "4" (some "0110")).tokens ∧
          ∀ other, ofLine? other = .ok i → other = "INITIALIZE Qé 4 [0110]" := by
  have h : Token.ofLine "INITIALIZE Qé 4 [0110]" = .ok (prepare "Qé" "4" (some "0110")).tokens := by decide
  exact ⟨h, render_of_ofLine h⟩

/-- The name that an instruction binds to a register or a gate. -/
def bound? : Instruction → Option String
  | prepare register _ _ => some register
  | concat name _ _ | tensor name _ _ | inverse name _ => some name
  | select .. | apply .. | measure .. => none

/-- A line binds only names. -/
theorem isName_of_ofLine? {name : String} (h : ofLine? line = .ok i) (hname : i.bound? = some name) :
    isName name = true := by
  obtain ⟨hi, -⟩ := ofLine?_eq_ok.mp h
  cases i with
  | prepare =>
    cases hname
    exact hi.1
  | concat | tensor | inverse =>
    cases hname
    exact hi.1.1
  | select | apply | measure => cases hname

end Instruction
end Ketscript
