import Ketscript.Binary64.Scalar
import Ketscript.Proofs.Refusals
import Ketscript.Proofs.Registers
import Ketscript.Proofs.Runs
import Ketscript.Proofs.Spelling

/-! Lines that are executed. A well-formed instruction and its line do the same on every machine. A line has a
    syntax error exactly if the lexer finds one: what the lexer lets pass is refused because of names, sizes and
    counts only, and the bits of an initial state are an index into the ket of the new register. -/

namespace Ketscript

/-- The bits of an initial state that has one for every qubit are read as an index. -/
theorem IsState.exists_basisIndex? {qubits bits : String} (h : IsState qubits bits) (hone : 1 ≤ Text.decimalValue qubits) :
    ∃ index, Store.basisIndex? (Text.decimalValue qubits) (some bits) = .ok index := by
  obtain ⟨hbits, hlength, -⟩ := h
  have hsize : bits.utf8ByteSize = Text.decimalValue qubits := (Text.utf8ByteSize_bits hbits).trans hlength
  have hne : bits.toList ≠ [] := by
    intro hnil
    have hzero : bits.length = 0 := by simp [← String.length_toList, hnil]
    omega
  have hbinary := Text.binary?_of_bits hne hbits
  exact ⟨Text.valueOfDigits 2 bits.toList, by simp [Store.basisIndex?, hsize, hbinary]⟩

/-- The literals of a new register in a line are a count, and an index if a register can have so many qubits. -/
theorem Instruction.WellFormed.prepare_literals {register qubits : String} {state : Option String}
    (h : WellFormed (prepare register qubits state)) : ∃ k, Text.count? qubits = some k ∧
      (1 ≤ k ∧ k ≤ maxQubits → ∃ index, Store.basisIndex? k state = .ok index) := by
  obtain ⟨-, hqubits, hstate⟩ := h
  refine ⟨_, Text.count?_of_isDigits hqubits, fun ⟨hone, hmax⟩ => ?_⟩
  have hword : maxQubits < Text.maxWord := by decide
  have hvalue : min (Text.decimalValue qubits) Text.maxWord = Text.decimalValue qubits := by omega
  rw [hvalue] at hone ⊢
  cases state with
  | none => exact ⟨0, rfl⟩
  | some bits => exact (hstate bits rfl).exists_basisIndex? hone

namespace Machine
variable {K R : Type} [RealScalar R] [Amplitude K R] [Add K] [Mul K] [Zero K] [One K] [BEq K]
variable {words : Nat → UInt64} {m : Machine K} {i : Instruction} {line : String} {tokens : List Token}

/-- Instructions are read back from their lines exactly if they are well formed, only these are read from any
    line, and these do on every machine what their lines do. -/
theorem execute_render (i : Instruction) :
    (Instruction.ofLine? i.render = .ok i ↔ i.WellFormed) ∧
      ((∃ line, Instruction.ofLine? line = .ok i) ↔ i.WellFormed) ∧
        (i.WellFormed → ∀ (words : Nat → UInt64) (m : Machine K), m.execute words i.render = m.run words i) := by
  have hrender : Instruction.ofLine? i.render = .ok i ↔ i.WellFormed := by simp [Instruction.ofLine?_eq_ok]
  refine ⟨hrender, ⟨?_, fun h => ⟨i.render, hrender.mpr h⟩⟩, fun h words m => ?_⟩
  · rintro ⟨line, hline⟩
    exact (Instruction.ofLine?_eq_ok.mp hline).1
  · exact execute_of_ofLine? words m (hrender.mpr h)

theorem execute_render_inverse :
    let m : Machine FloatComplex := fresh
    let i : Instruction := .inverse "V" "R0.5"
    i.WellFormed ∧ Instruction.ofLine? i.render = .ok i ∧ m.execute (fun _ => 0) i.render = m.run (fun _ => 0) i := by
  intro m i
  have h : i.WellFormed := by decide
  exact ⟨h, (execute_render (K := FloatComplex) i).1.mpr h, (execute_render i).2.2 h (fun _ => 0) m⟩

/-! ### Syntax -/

theorem execute_of_error (words : Nat → UInt64) (m : Machine K) {cause : SyntaxError}
    (h : Token.ofLine line = .error cause) : m.execute words line = (.error (.invalidSyntax cause), m) := by
  have hline : Instruction.ofLine? line = .error cause := by
    rw [Instruction.ofLine?, h]
    rfl
  exact execute_of_syntaxError words m hline

theorem exists_of_ofLine (h : Token.ofLine line = .ok tokens) :
    ∃ i : Instruction, i.WellFormed ∧ tokens = i.tokens ∧ Instruction.ofLine? line = .ok i := by
  obtain ⟨i, hi, hline, rfl⟩ := Token.ofLine_eq_ok.mp h
  exact ⟨i, hi, rfl, Instruction.ofLine?_eq_ok.mpr ⟨hi, hline⟩⟩

/-! ### New registers -/

/-- The making of a register of `k` qubits is refused because of its name or its number of qubits, or the
    register is a basis state whose index is within its ket. -/
def Prepares (m : Machine K) (register : String) (k : Nat) (state : Option String) (result : Answer × Machine K) :
    Prop :=
  (∃ e ∈ [.builtinName register, .gateName register, .qubitCount k], result = (.error e, m)) ∨
    ∃ index < 2 ^ k, Store.basisIndex? k state = .ok index ∧ result = (.ok none, { m with store := { m.store with
      registers := m.store.registers.insert register (Ket.basis (1 <<< k) index) } })

theorem prepares_run {register qubits : String} {state : Option String}
    (h : Instruction.WellFormed (.prepare register qubits state)) (words : Nat → UInt64) (m : Machine K) :
    ∃ k, qubitCount qubits = .ok k ∧ m.Prepares register k state (m.run words (.prepare register qubits state)) := by
  obtain ⟨k, hcount, hindex⟩ := h.prepare_literals
  have hk : qubitCount qubits = .ok k := qubitCount_eq_ok.mpr hcount
  refine ⟨k, hk, ?_⟩
  rw [run_prepare words m hk, Store.on_create]
  split
  · exact .inl ⟨_, by simp, rfl⟩
  · split
    · exact .inl ⟨_, by simp, rfl⟩
    · split
      · exact .inl ⟨_, by simp, rfl⟩
      · rename_i hrange
        obtain ⟨index, hindex⟩ := hindex (Classical.not_not.mp hrange)
        rw [hindex]
        exact .inr ⟨index, Store.basisIndex?_lt hindex, hindex, rfl⟩

/-! ### Errors -/

theorem refuses_run_of_wellFormed (words : Nat → UInt64) (m : Machine K) (hi : i.WellFormed) :
    Refuses (m.run words i).1 := by
  cases i with
  | prepare register qubits state =>
    obtain ⟨k, -, ⟨e, he, hrun⟩ | ⟨index, -, -, hrun⟩⟩ := prepares_run hi words m
    · rw [hrun]
      simp only [List.mem_cons, List.not_mem_nil, or_false] at he
      rcases he with rfl | rfl | rfl <;> exact .error trivial
    · rw [hrun]
      exact .ok none
  | select | concat | tensor | inverse | apply | measure => exact refuses_run words m (by simp [Instruction.keyword])

/-- A line has a syntax error exactly if the lexer finds one, and the same. A line that makes a register does so or
    is refused because of its name or its number of qubits: its literals are read without a fault. No line ends
    with an error of linear algebra. -/
theorem execute_errors (words : Nat → UInt64) (m : Machine K) (line : String) :
    (∀ cause, (m.execute words line).1 = .error (.invalidSyntax cause) ↔ Token.ofLine line = .error cause) ∧
      (∀ rest, Token.ofLine line = .ok (.keyword .prepare :: rest) →
        ∃ register qubits state k, Instruction.ofLine? line = .ok (.prepare register qubits state) ∧
          qubitCount qubits = .ok k ∧ m.Prepares register k state (m.execute words line)) ∧
      ∀ cause, (m.execute words line).1 ≠ .error (.linear cause) := by
  cases htokens : Token.ofLine line with
  | error cause =>
    have hrun := execute_of_error words m htokens
    simp [hrun]
  | ok tokens =>
    obtain ⟨i, hi, rfl, hline⟩ := exists_of_ofLine htokens
    have hrefuses := refuses_run_of_wellFormed words m hi
    rw [execute_of_ofLine? words m hline]
    refine ⟨fun cause => ?_, fun rest hrest => ?_, fun cause hcause => hrefuses _ hcause⟩
    · simp only [reduceCtorEq, iff_false]
      exact fun hcause => hrefuses _ hcause
    · cases i with
      | prepare register qubits state =>
        obtain ⟨k, hk, hprepares⟩ := prepares_run hi words m
        exact ⟨register, qubits, state, k, hline, hk, hprepares⟩
      | select | concat | tensor | inverse | apply | measure => cases hrest

theorem execute_errors_prepare :
    let m : Machine FloatComplex := fresh
    Token.ofLine "INITIALIZE Q 2 [10]" = .ok (Instruction.tokens (.prepare "Q" "2" (some "10"))) ∧
      ∃ register qubits state k, Instruction.ofLine? "INITIALIZE Q 2 [10]" = .ok (.prepare register qubits state) ∧
        qubitCount qubits = .ok k ∧
          m.Prepares register k state (m.execute (fun _ => 0) "INITIALIZE Q 2 [10]") := by
  intro m
  have h : Token.ofLine "INITIALIZE Q 2 [10]" = .ok (Instruction.tokens (.prepare "Q" "2" (some "10"))) := by decide
  exact ⟨h, (execute_errors (fun _ => 0) m "INITIALIZE Q 2 [10]").2.1 _ h⟩

end Machine
end Ketscript
