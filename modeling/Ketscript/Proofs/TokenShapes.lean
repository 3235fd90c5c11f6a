import Ketscript.Proofs.Spelling
import Mathlib.Data.List.Forall2

/-! Shapes of token lists. The tokens of a line have one of eight shapes, which say where the reserved words, the
    names, the literals and the brackets stand, and lists of these shapes are read as instructions. But more lists
    are: after the first token a literal may stand for a name, and a name for a literal. -/

namespace Ketscript

/-- What a token is, whatever the text of a name or a literal. -/
inductive TokenKind where
  | keyword (word : Keyword)
  | identifier
  | literal
  | separator (mark : Char)
deriving Repr, DecidableEq

/-- A token of one kind is read like one of the other: they are the same, or a name and a literal. -/
def TokenKind.StandsFor (a b : TokenKind) : Prop :=
  a = b ∨ a ∈ [identifier, literal] ∧ b ∈ [identifier, literal]

namespace Token

def kind : Token → TokenKind
  | keyword word => .keyword word
  | identifier _ => .identifier
  | literal _ => .literal
  | separator mark => .separator mark

/-- The text of a name or a literal. -/
def text? : Token → Option String
  | identifier text | literal text => some text
  | keyword _ | separator _ => none

/-- The tokens are the same, or a name and a literal of the same text. -/
def Alike (a b : Token) : Prop := a = b ∨ ∃ text, a.text? = some text ∧ b.text? = some text

variable {a b : Token} {text : String} {word : Keyword} {mark : Char}

@[simp] theorem text?_identifier : (identifier text).text? = some text := rfl

@[simp] theorem text?_literal : (literal text).text? = some text := rfl

theorem kind_eq_keyword : a.kind = .keyword word ↔ a = .keyword word := by cases a <;> simp [kind]

theorem kind_eq_separator : a.kind = .separator mark ↔ a = .separator mark := by cases a <;> simp [kind]

theorem kind_eq_identifier : a.kind = .identifier ↔ ∃ text, a = .identifier text := by cases a <;> simp [kind]

theorem kind_eq_literal : a.kind = .literal ↔ ∃ text, a = .literal text := by cases a <;> simp [kind]

theorem kind_mem_iff : a.kind ∈ [TokenKind.identifier, .literal] ↔ ∃ text, a.text? = some text := by
  cases a <;> simp [kind, text?]

theorem alike_of_text?_eq_some (h : b.text? = some text) : a.Alike b ↔ a.text? = some text := by
  constructor
  · rintro (rfl | ⟨_, ha, hb⟩)
    · exact h
    · rw [ha, ← hb, h]
  · exact fun ha => .inr ⟨text, ha, h⟩

theorem alike_of_text?_eq_none (h : b.text? = none) : a.Alike b ↔ a = b := by
  constructor
  · rintro (rfl | ⟨_, -, hb⟩)
    · rfl
    · cases h.symm.trans hb
  · exact .inl

@[simp] theorem alike_identifier : a.Alike (.identifier text) ↔ a.text? = some text := alike_of_text?_eq_some rfl

@[simp] theorem alike_literal : a.Alike (.literal text) ↔ a.text? = some text := alike_of_text?_eq_some rfl

@[simp] theorem alike_keyword : a.Alike (.keyword word) ↔ a = .keyword word := alike_of_text?_eq_none rfl

@[simp] theorem alike_separator : a.Alike (.separator mark) ↔ a = .separator mark := alike_of_text?_eq_none rfl

theorem Alike.standsFor (h : a.Alike b) : a.kind.StandsFor b.kind := by
  rcases h with rfl | ⟨text, ha, hb⟩
  · exact .inl rfl
  · exact .inr ⟨kind_mem_iff.mpr ⟨text, ha⟩, kind_mem_iff.mpr ⟨text, hb⟩⟩

/-- A token that stands for those of a kind is like one of them. -/
theorem exists_alike {kind : TokenKind} (h : a.kind.StandsFor kind) : ∃ b : Token, a.Alike b ∧ b.kind = kind := by
  rcases h with h | ⟨ha, hkind⟩
  · exact ⟨a, .inl rfl, h⟩
  · obtain ⟨text, ha⟩ := kind_mem_iff.mp ha
    simp only [List.mem_cons, List.not_mem_nil, or_false] at hkind
    rcases hkind with rfl | rfl
    · exact ⟨.identifier text, alike_identifier.mpr ha, rfl⟩
    · exact ⟨.literal text, alike_literal.mpr ha, rfl⟩

theorem exists_forall₂_alike {ts : List Token} {shape : List TokenKind}
    (h : List.Forall₂ TokenKind.StandsFor (ts.map kind) shape) :
    ∃ ts', List.Forall₂ Alike ts ts' ∧ ts'.map kind = shape := by
  rw [List.forall₂_map_left_iff] at h
  induction h with
  | nil => exact ⟨[], .nil, rfl⟩
  | cons hfirst _ ih =>
    obtain ⟨b, hb, rfl⟩ := exists_alike hfirst
    obtain ⟨rest, hrest, rfl⟩ := ih
    exact ⟨b :: rest, .cons hb hrest, rfl⟩

end Token

namespace Instruction
variable {i : Instruction} {ts : List Token}

/-! ### Shapes -/

/-- The kinds of the tokens of an instruction, in their order. -/
def shapes : List (List TokenKind) := [
  [.keyword .prepare, .identifier, .literal],
  [.keyword .prepare, .identifier, .literal, .separator '[', .literal, .separator ']'],
  [.keyword .select, .identifier, .identifier, .literal, .literal],
  [.keyword .apply, .identifier, .identifier],
  [.keyword .measure, .identifier],
  [.identifier, .keyword .concat, .identifier, .identifier],
  [.identifier, .keyword .tensor, .identifier, .identifier],
  [.identifier, .keyword .inverse, .identifier]]

theorem exists_tokens_of_mem_shapes (h : ts.map Token.kind ∈ shapes) : ∃ i : Instruction, i.tokens = ts := by
  simp only [shapes, List.mem_cons, List.not_mem_nil, or_false, List.map_eq_cons_iff, List.map_eq_nil_iff,
    Token.kind_eq_keyword, Token.kind_eq_identifier, Token.kind_eq_literal, Token.kind_eq_separator] at h
  rcases h with
    ⟨_, _, rfl, rfl, _, _, rfl, ⟨register, rfl⟩, _, _, rfl, ⟨qubits, rfl⟩, rfl⟩ |
    ⟨_, _, rfl, rfl, _, _, rfl, ⟨register, rfl⟩, _, _, rfl, ⟨qubits, rfl⟩, _, _, rfl, rfl,
      _, _, rfl, ⟨bits, rfl⟩, _, _, rfl, rfl, rfl⟩ |
    ⟨_, _, rfl, rfl, _, _, rfl, ⟨target, rfl⟩, _, _, rfl, ⟨source, rfl⟩, _, _, rfl, ⟨start, rfl⟩,
      _, _, rfl, ⟨length, rfl⟩, rfl⟩ |
    ⟨_, _, rfl, rfl, _, _, rfl, ⟨gate, rfl⟩, _, _, rfl, ⟨register, rfl⟩, rfl⟩ |
    ⟨_, _, rfl, rfl, _, _, rfl, ⟨register, rfl⟩, rfl⟩ |
    ⟨_, _, rfl, ⟨name, rfl⟩, _, _, rfl, rfl, _, _, rfl, ⟨left, rfl⟩, _, _, rfl, ⟨right, rfl⟩, rfl⟩ |
    ⟨_, _, rfl, ⟨name, rfl⟩, _, _, rfl, rfl, _, _, rfl, ⟨left, rfl⟩, _, _, rfl, ⟨right, rfl⟩, rfl⟩ |
    ⟨_, _, rfl, ⟨name, rfl⟩, _, _, rfl, rfl, _, _, rfl, ⟨gate, rfl⟩, rfl⟩
  · exact ⟨.prepare register qubits none, rfl⟩
  · exact ⟨.prepare register qubits (some bits), rfl⟩
  · exact ⟨.select target source start length, rfl⟩
  · exact ⟨.apply gate register, rfl⟩
  · exact ⟨.measure register, rfl⟩
  · exact ⟨.concat name left right, rfl⟩
  · exact ⟨.tensor name left right, rfl⟩
  · exact ⟨.inverse name gate, rfl⟩

theorem map_kind_tokens_mem_shapes (i : Instruction) : i.tokens.map Token.kind ∈ shapes := by
  cases i with
  | prepare register qubits state => cases state <;> simp [tokens, Token.kind, shapes]
  | select | concat | tensor | inverse | apply | measure => simp [tokens, Token.kind, shapes]

/-! ### Reading -/

theorem takeText_cons {token : Token} {text : String} (h : token.text? = some text) (rest : List Token) :
    takeText (token :: rest) = .ok (text, rest) := by
  cases token with
  | identifier | literal =>
    cases h
    rfl
  | keyword | separator => cases h

theorem takeText_bind_eq_ok {α : Type} {f : String × List Token → Except SyntaxError α} {a : α} :
    takeText ts >>= f = .ok a ↔
      ∃ token text rest, ts = token :: rest ∧ token.text? = some text ∧ f (text, rest) = .ok a := by
  constructor
  · intro h
    obtain ⟨⟨text, rest⟩, htext, hf⟩ := bind_eq_ok.mp h
    unfold takeText at htext
    split at htext
    · cases htext
      exact ⟨_, text, rest, rfl, rfl, hf⟩
    · cases htext
      exact ⟨_, text, rest, rfl, rfl, hf⟩
    · cases htext
    · cases htext
  · rintro ⟨token, text, rest, rfl, htext, hf⟩
    rw [takeText_cons htext]
    exact hf

theorem takeState_eq_ok {state : Option String} {rest : List Token} : takeState ts = .ok (state, rest) ↔
    (ts = [] ∧ state = none ∧ rest = []) ∨
      ∃ token bits, ts = .separator '[' :: token :: .separator ']' :: rest ∧ token.text? = some bits ∧
        state = some bits := by
  constructor
  · intro h
    unfold takeState at h
    split at h
    · cases h
      exact .inl ⟨rfl, rfl, rfl⟩
    · obtain ⟨token, bits, rest', rfl, hbits, h⟩ := takeText_bind_eq_ok.mp h
      simp only at h
      split at h
      · cases h
        exact .inr ⟨token, bits, rfl, hbits, rfl⟩
      · cases h
    · cases h
  · rintro (⟨rfl, rfl, rfl⟩ | ⟨token, bits, rfl, hbits, rfl⟩)
    · rfl
    · exact takeText_bind_eq_ok.mpr ⟨token, bits, _, rfl, hbits, rfl⟩

/-- The tokens are read as the instruction: they begin with its first token, and the others are like its others. -/
def ReadFrom (i : Instruction) (ts : List Token) : Prop :=
  ts.head? = i.tokens.head? ∧ List.Forall₂ Token.Alike ts i.tokens

theorem readFrom_of_takeStatement {word : Keyword} (h : takeStatement word ts = .ok (i, [])) :
    i.ReadFrom (.keyword word :: ts) := by
  cases word with
  | prepare =>
    simp only [takeStatement, takeText_bind_eq_ok] at h
    obtain ⟨_, register, _, rfl, hregister, _, qubits, _, rfl, hqubits, h⟩ := h
    obtain ⟨⟨state, rest⟩, hstate, h⟩ := bind_eq_ok.mp h
    cases h
    rcases takeState_eq_ok.mp hstate with ⟨rfl, rfl, -⟩ | ⟨_, bits, rfl, hbits, rfl⟩
    · simp [ReadFrom, tokens, hregister, hqubits]
    · simp [ReadFrom, tokens, hregister, hqubits, hbits]
  | select =>
    simp only [takeStatement, takeText_bind_eq_ok, pure_eq_ok, Prod.mk.injEq] at h
    obtain ⟨_, target, _, rfl, htarget, _, source, _, rfl, hsource, _, start, _, rfl, hstart,
      _, length, _, rfl, hlength, rfl, rfl⟩ := h
    simp [ReadFrom, tokens, htarget, hsource, hstart, hlength]
  | apply =>
    simp only [takeStatement, takeText_bind_eq_ok, pure_eq_ok, Prod.mk.injEq] at h
    obtain ⟨_, gate, _, rfl, hgate, _, register, _, rfl, hregister, rfl, rfl⟩ := h
    simp [ReadFrom, tokens, hgate, hregister]
  | measure =>
    simp only [takeStatement, takeText_bind_eq_ok, pure_eq_ok, Prod.mk.injEq] at h
    obtain ⟨_, register, _, rfl, hregister, rfl, rfl⟩ := h
    simp [ReadFrom, tokens, hregister]
  | concat | tensor | inverse => cases h

theorem readFrom_of_takeDefinition {name : String} {word : Keyword} (h : takeDefinition name word ts = .ok (i, [])) :
    i.ReadFrom (.identifier name :: .keyword word :: ts) := by
  cases word with
  | concat | tensor =>
    simp only [takeDefinition, takeText_bind_eq_ok, pure_eq_ok, Prod.mk.injEq] at h
    obtain ⟨_, left, _, rfl, hleft, _, right, _, rfl, hright, rfl, rfl⟩ := h
    simp [ReadFrom, tokens, hleft, hright]
  | inverse =>
    simp only [takeDefinition, takeText_bind_eq_ok, pure_eq_ok, Prod.mk.injEq] at h
    obtain ⟨_, gate, _, rfl, hgate, rfl, rfl⟩ := h
    simp [ReadFrom, tokens, hgate]
  | prepare | select | apply | measure => cases h

theorem ofTokens?_of_readFrom (h : i.ReadFrom ts) : ofTokens? ts = .ok i := by
  obtain ⟨hhead, h⟩ := h
  cases i with
  | prepare register qubits state =>
    cases state with
    | none =>
      simp only [tokens, List.forall₂_cons_right_iff, List.forall₂_nil_right_iff, Token.alike_keyword,
        Token.alike_identifier, Token.alike_literal] at h
      obtain ⟨_, _, rfl, ⟨_, _, hregister, ⟨_, _, hqubits, rfl, rfl⟩, rfl⟩, rfl⟩ := h
      simp only [ofTokens?, takeStatement, takeText_cons hregister, takeText_cons hqubits, takeState, bind,
        Except.bind, pure, Except.pure]
    | some bits =>
      simp only [tokens, List.forall₂_cons_right_iff, List.forall₂_nil_right_iff, Token.alike_keyword,
        Token.alike_identifier, Token.alike_literal, Token.alike_separator] at h
      obtain ⟨_, _, rfl, ⟨_, _, hregister, ⟨_, _, hqubits, ⟨_, _, rfl, ⟨_, _, hbits, ⟨_, _, rfl, rfl, rfl⟩,
        rfl⟩, rfl⟩, rfl⟩, rfl⟩, rfl⟩ := h
      simp only [ofTokens?, takeStatement, takeText_cons hregister, takeText_cons hqubits, takeText_cons hbits,
        takeState, bind, Except.bind, pure, Except.pure]
  | select target source start length =>
    simp only [tokens, List.forall₂_cons_right_iff, List.forall₂_nil_right_iff, Token.alike_keyword,
      Token.alike_identifier, Token.alike_literal] at h
    obtain ⟨_, _, rfl, ⟨_, _, htarget, ⟨_, _, hsource, ⟨_, _, hstart, ⟨_, _, hlength, rfl, rfl⟩,
      rfl⟩, rfl⟩, rfl⟩, rfl⟩ := h
    simp only [ofTokens?, takeStatement, takeText_cons htarget, takeText_cons hsource, takeText_cons hstart,
      takeText_cons hlength, bind, Except.bind, pure, Except.pure]
  | apply gate register =>
    simp only [tokens, List.forall₂_cons_right_iff, List.forall₂_nil_right_iff, Token.alike_keyword,
      Token.alike_identifier] at h
    obtain ⟨_, _, rfl, ⟨_, _, hgate, ⟨_, _, hregister, rfl, rfl⟩, rfl⟩, rfl⟩ := h
    simp only [ofTokens?, takeStatement, takeText_cons hgate, takeText_cons hregister, bind, Except.bind, pure,
      Except.pure]
  | measure register =>
    simp only [tokens, List.forall₂_cons_right_iff, List.forall₂_nil_right_iff, Token.alike_keyword,
      Token.alike_identifier] at h
    obtain ⟨_, _, rfl, ⟨_, _, hregister, rfl, rfl⟩, rfl⟩ := h
    simp only [ofTokens?, takeStatement, takeText_cons hregister, bind, Except.bind, pure, Except.pure]
  | concat name left right | tensor name left right =>
    simp only [tokens, List.forall₂_cons_right_iff, List.forall₂_nil_right_iff, Token.alike_keyword,
      Token.alike_identifier] at h
    obtain ⟨_, _, -, ⟨_, _, rfl, ⟨_, _, hleft, ⟨_, _, hright, rfl, rfl⟩, rfl⟩, rfl⟩, rfl⟩ := h
    cases hhead
    simp only [ofTokens?, takeDefinition, takeText_cons hleft, takeText_cons hright, bind, Except.bind, pure,
      Except.pure]
  | inverse name gate =>
    simp only [tokens, List.forall₂_cons_right_iff, List.forall₂_nil_right_iff, Token.alike_keyword,
      Token.alike_identifier] at h
    obtain ⟨_, _, -, ⟨_, _, rfl, ⟨_, _, hgate, rfl, rfl⟩, rfl⟩, rfl⟩ := h
    cases hhead
    simp only [ofTokens?, takeDefinition, takeText_cons hgate, bind, Except.bind, pure, Except.pure]

theorem ofTokens?_eq_ok : ofTokens? ts = .ok i ↔ i.ReadFrom ts := by
  refine ⟨fun h => ?_, ofTokens?_of_readFrom⟩
  -- What is read ends with the tokens: the last step of the reader refuses a token that is left.
  have hall {read : Except SyntaxError (Instruction × List Token)}
      {last : Instruction × List Token → Except SyntaxError Instruction} (h : read >>= last = .ok i)
      (hnil : ∀ j, last (j, []) = .ok j) (hcons : ∀ j token rest, last (j, token :: rest) = .error (.trailing token)) :
      read = .ok (i, []) := by
    obtain ⟨⟨j, rest⟩, hread, hlast⟩ := bind_eq_ok.mp h
    cases rest with
    | nil => rw [hread, Except.ok.inj ((hnil j).symm.trans hlast)]
    | cons token rest => cases (hcons j token rest).symm.trans hlast
  unfold ofTokens? at h
  split at h
  · exact readFrom_of_takeStatement (hall h (fun _ => rfl) fun _ _ _ => rfl)
  · exact readFrom_of_takeDefinition (hall h (fun _ => rfl) fun _ _ _ => rfl)
  · cases h

/-! ### Which lists are read -/

theorem mem_shapes_iff : ts.map Token.kind ∈ shapes ↔ ∃ i : Instruction, i.tokens = ts := by
  refine ⟨exists_tokens_of_mem_shapes, ?_⟩
  rintro ⟨i, rfl⟩
  exact map_kind_tokens_mem_shapes i

/-- The shapes are those of the tokens of lines. -/
theorem mem_shapes_iff_exists_line {shape : List TokenKind} :
    shape ∈ shapes ↔ ∃ line ts, Token.ofLine line = .ok ts ∧ ts.map Token.kind = shape := by
  constructor
  · intro h
    simp only [shapes, List.mem_cons, List.not_mem_nil, or_false] at h
    rcases h with rfl | rfl | rfl | rfl | rfl | rfl | rfl | rfl
    · exact ⟨"INITIALIZE Q 1", (prepare "Q" "1" none).tokens, by decide, rfl⟩
    · exact ⟨"INITIALIZE Q 1 [0]", (prepare "Q" "1" (some "0")).tokens, by decide, rfl⟩
    · exact ⟨"SELECT S Q 0 1", (select "S" "Q" "0" "1").tokens, by decide, rfl⟩
    · exact ⟨"APPLY H Q", (apply "H" "Q").tokens, by decide, rfl⟩
    · exact ⟨"MEASURE Q", (measure "Q").tokens, by decide, rfl⟩
    · exact ⟨"U CONCAT H H", (concat "U" "H" "H").tokens, by decide, rfl⟩
    · exact ⟨"U TENSOR H H", (tensor "U" "H" "H").tokens, by decide, rfl⟩
    · exact ⟨"U INVERSE H", (inverse "U" "H").tokens, by decide, rfl⟩
  · rintro ⟨line, ts, h, rfl⟩
    obtain ⟨i, -, -, rfl⟩ := Token.ofLine_eq_ok.mp h
    exact map_kind_tokens_mem_shapes i

/-- A list that is read as an instruction has one of the shapes up to names and literals, and every such list is. -/
theorem exists_readFrom_iff : (∃ i : Instruction, i.ReadFrom ts) ↔ ∃ shape ∈ shapes,
    (ts.map Token.kind).head? = shape.head? ∧ List.Forall₂ TokenKind.StandsFor (ts.map Token.kind) shape := by
  constructor
  · rintro ⟨i, hhead, h⟩
    refine ⟨_, map_kind_tokens_mem_shapes i, by rw [List.head?_map, List.head?_map, hhead], ?_⟩
    rw [List.forall₂_map_left_iff, List.forall₂_map_right_iff]
    exact h.imp fun _ _ => Token.Alike.standsFor
  · rintro ⟨shape, hshape, hhead, h⟩
    cases ts with
    | nil =>
      cases h
      exact absurd hshape (by decide)
    | cons first rest =>
      cases h with
      | cons _ h =>
        obtain ⟨rest', hrest, rfl⟩ := Token.exists_forall₂_alike h
        cases hhead
        obtain ⟨i, hi⟩ : ∃ i : Instruction, i.tokens = first :: rest' := exists_tokens_of_mem_shapes hshape
        refine ⟨i, ?_⟩
        rw [ReadFrom, hi]
        exact ⟨rfl, .cons (.inl rfl) hrest⟩

/-- A list of tokens is read if it has a shape up to names and literals after its first token, which may stand for each
    other. It is read as the instruction with its texts, and it has a shape itself, as the tokens of a line do, exactly
    if it consists of the tokens of this instruction. -/
theorem ofTokens?_shapes (ts : List Token) :
    (ts.map Token.kind ∈ shapes ↔
        ∃ line lexed, Token.ofLine line = .ok lexed ∧ lexed.map Token.kind = ts.map Token.kind) ∧
      (ts.map Token.kind ∈ shapes → ∃ i, ofTokens? ts = .ok i) ∧
      ((∃ i, ofTokens? ts = .ok i) ↔ ∃ shape ∈ shapes,
        (ts.map Token.kind).head? = shape.head? ∧ List.Forall₂ TokenKind.StandsFor (ts.map Token.kind) shape) ∧
      ∀ i, ofTokens? ts = .ok i →
        (ts.head? = i.tokens.head? ∧ List.Forall₂ Token.Alike ts i.tokens) ∧
          (ts.map Token.kind ∈ shapes ↔ i.tokens = ts) := by
  refine ⟨mem_shapes_iff_exists_line, ?_, ?_, fun i hi => ⟨ofTokens?_eq_ok.mp hi, ?_⟩⟩
  · intro h
    obtain ⟨i, rfl⟩ := mem_shapes_iff.mp h
    exact ⟨i, ofTokens?_tokens i⟩
  · simp only [ofTokens?_eq_ok, exists_readFrom_iff]
  · refine mem_shapes_iff.trans ⟨?_, fun h => ⟨i, h⟩⟩
    rintro ⟨j, rfl⟩
    rw [← Except.ok.inj (hi.symm.trans (ofTokens?_tokens j))]

theorem ofTokens?_shapes_apply :
    let ts : List Token := [.keyword .apply, .identifier "H", .identifier "Q"]
    ts.map Token.kind ∈ shapes ∧ (∃ i, ofTokens? ts = .ok i) ∧ ofTokens? ts = .ok (apply "H" "Q") ∧
      (apply "H" "Q").tokens = ts := by
  intro ts
  have hshape : ts.map Token.kind ∈ shapes := by decide
  have hread : ofTokens? ts = .ok (apply "H" "Q") := rfl
  obtain ⟨-, hexists, -, htokens⟩ := ofTokens?_shapes ts
  exact ⟨hshape, hexists hshape, hread, (htokens _ hread).2.mp hshape⟩

/-- A literal is read as the name of a register, although no line has tokens of this shape. -/
theorem ofTokens?_literal_register :
    let ts : List Token := [.keyword .measure, .literal "5"]
    ofTokens? ts = .ok (measure "5") ∧ ts.map Token.kind ∉ shapes := by
  exact ⟨rfl, by decide⟩

end Instruction
end Ketscript
