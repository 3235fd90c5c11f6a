import Ketscript.Proofs.StoreInvariant

/-! Outcomes of definitions. A definition looks at the spelling of its operands, then at its name, then at the
    matrices of its operands, and last at their sizes; it ends with the first fault or binds its name. A gate is said
    to exist by its spelling, so that an identity of a dimension that no gate has exists and has no matrix. This is why
    a fault of the name is reported before one of such an operand. -/

namespace Ketscript

/-- The error for the name of an identity of a dimension that no gate has. -/
def Builtin.dimensionError? (name : String) : Option InstructionError :=
  match ofName? name with
  | some (identity n) =>
    if n = 0 then some (.noGate name)
    else if maxGateDimension < n then some (.gateTooLarge n)
    else none
  | _ => none

theorem Builtin.dimensionError?_eq_some {name : String} {e : InstructionError} : dimensionError? name = some e ↔
    ∃ n, ofName? name = some (identity n) ∧
      ((n = 0 ∧ e = .noGate name) ∨ (maxGateDimension < n ∧ e = .gateTooLarge n)) := by
  unfold dimensionError?
  split
  · rename_i n hn
    by_cases hzero : n = 0
    · subst hzero
      simp [hn, eq_comm]
    · simp [hn, hzero, eq_comm]
  · rename_i hother
    constructor
    · intro h
      cases h
    · rintro ⟨n, hn, -⟩
      exact (hother n hn).elim

theorem Builtin.matrix?_eq_error {K R : Type} [RealScalar R] [Amplitude K R] [Zero K] [One K] {b : Builtin}
    {name : String} (hb : ofName? name = some b) {e : InstructionError} :
    (b.matrix? name : Except InstructionError (Matrix K)) = .error e ↔ dimensionError? name = some e := by
  rw [dimensionError?, hb]
  cases b with
  | hadamard => simp [matrix?_hadamard]
  | cnot => simp [matrix?_cnot]
  | phase => simp [matrix?_phase]
  | identity n =>
    rw [matrix?_identity]
    by_cases hzero : n = 0
    · subst hzero
      simp
    · have hpos : 0 < n := Nat.pos_of_ne_zero hzero
      by_cases hmax : maxGateDimension < n <;> simp [hmax, hzero, hpos]

namespace Store
variable {K R : Type} {s : Store K} {past : List Instruction} {name left right : String} {e : InstructionError}

/-- A name that no gate and no register has. -/
def Free (s : Store K) (name : String) : Prop :=
  isBuiltin name = false ∧ s.registers.contains name = false ∧ s.gates.contains name = false

instance : Decidable (s.Free name) := inferInstanceAs (Decidable (_ ∧ _ ∧ _))

/-- A name that is not free is refused because of what has it, a builtin gate first and a defined gate last. -/
theorem checkDefinable_eq_error : s.checkDefinable name = .error e ↔
    (isBuiltin name = true ∧ e = .builtinName name) ∨
      (isBuiltin name = false ∧ s.registers.contains name = true ∧ e = .registerName name) ∨
        (isBuiltin name = false ∧ s.registers.contains name = false ∧ s.gates.contains name = true ∧
          e = .gateName name) := by
  unfold checkDefinable
  cases isBuiltin name <;> cases s.registers.contains name <;> cases s.gates.contains name <;> simp [eq_comm]

theorem Sound.checkDefinable_register (h : s.Sound past) (hname : s.registers.contains name = true) :
    s.checkDefinable name = .error (.registerName name) :=
  checkDefinable_eq_error.mpr (.inr (.inl ⟨h.register_not_builtin name hname, hname, rfl⟩))

theorem Sound.checkDefinable_gate (h : s.Sound past) (hname : s.gates.contains name = true) :
    s.checkDefinable name = .error (.gateName name) := by
  have hregister : s.registers.contains name = false := by
    rw [← Bool.not_eq_true]
    intro hregister
    cases hname.symm.trans (h.register_not_gate name hregister)
  exact checkDefinable_eq_error.mpr (.inr (.inr ⟨h.gate_not_builtin name hname, hregister, hname, rfl⟩))

theorem gateExists_of_dimensionError (h : Builtin.dimensionError? name = some e) : s.gateExists name = true := by
  obtain ⟨n, hn, -⟩ := Builtin.dimensionError?_eq_some.mp h
  simp [gateExists, isBuiltin, hn]

/-! ### Existence and matrices -/

section
variable [RealScalar R] [Amplitude K R] [Zero K] [One K]

/-- A gate has no matrix if it does not exist, or if it is an identity of a dimension that no gate has. -/
theorem resolve_eq_error : s.resolve name = .error e ↔
    (s.gateExists name = false ∧ e = .noGate name) ∨ Builtin.dimensionError? name = some e := by
  cases hb : Builtin.ofName? name with
  | some b => simp [resolve, gateExists, isBuiltin, hb, Builtin.matrix?_eq_error hb]
  | none => cases hu : s.gates.find? name <;>
      simp [resolve, gateExists, isBuiltin, Builtin.dimensionError?, NameMap.contains, hb, hu, eq_comm]

theorem exists_resolve_iff :
    (∃ u, s.resolve name = .ok u) ↔ s.gateExists name = true ∧ Builtin.dimensionError? name = none := by
  cases h : s.resolve name with
  | ok u =>
    have hexists := gateExists_of_resolve h
    cases hdimension : Builtin.dimensionError? name with
    | none => simp [hexists]
    | some e => cases h.symm.trans (resolve_eq_error.mpr (.inr hdimension))
  | error e => rcases resolve_eq_error.mp h with ⟨hexists, -⟩ | hdimension <;> simp [*]

theorem Sound.exists_resolve (h : s.Sound past)
    (hgate : s.gateExists name = true ∧ Builtin.dimensionError? name = none) :
    ∃ u, s.resolve name = .ok u ∧ u.IsSquare := by
  obtain ⟨u, hu⟩ := exists_resolve_iff.mpr hgate
  exact ⟨u, hu, (h.resolve hu).1⟩

/-- A missing matrix and a taken name have different errors. -/
theorem checkDefinable_ne_resolve_error {gate : String} (h : s.resolve gate = .error e) :
    s.checkDefinable name ≠ .error e := by
  intro htaken
  rcases checkDefinable_eq_error.mp htaken with ⟨-, rfl⟩ | ⟨-, -, rfl⟩ | ⟨-, -, -, rfl⟩ <;>
    simp [resolve_eq_error, Builtin.dimensionError?_eq_some] at h

/-- If operands exist but have no matrices, the error is that of the first such operand from the left. -/
theorem bind_resolve_eq_error {α : Type} {f : Matrix K → Matrix K → Except InstructionError α}
    (hexist : ∀ gate ∈ [left, right], s.gateExists gate = true)
    (h : [left, right].findSome? Builtin.dimensionError? = some e) :
    (do f (← s.resolve left) (← s.resolve right)) = .error e := by
  rw [List.findSome?_cons] at h
  cases hleft : Builtin.dimensionError? left with
  | some e' =>
    rw [hleft] at h
    cases h
    rw [resolve_eq_error.mpr (.inr hleft)]
    rfl
  | none =>
    obtain ⟨a, ha⟩ := exists_resolve_iff.mpr ⟨hexist left List.mem_cons_self, hleft⟩
    have hright : Builtin.dimensionError? right = some e := by simpa [hleft] using h
    rw [ha, resolve_eq_error.mpr (.inr hright)]
    rfl

theorem checkDefinition_of_resolve {a b : Matrix K} (hleft : s.resolve left = .ok a) (hright : s.resolve right = .ok b)
    (hfree : s.Free name) : s.checkDefinition name [left, right] = .ok () := by
  refine checkDefinition_eq_ok.mpr ⟨?_, checkDefinable_eq_ok.mpr hfree⟩
  simp [gateExists_of_resolve hleft, gateExists_of_resolve hright]

theorem concat_eq_error_of_sizes [Add K] [Mul K] [BEq K] {a b : Matrix K} (hleft : s.resolve left = .ok a)
    (hright : s.resolve right = .ok b) (hinner : a.cols ≠ b.rows) :
    s.concat left right = .error (.concatSizes a.rows b.rows) := by
  simp [concat, hleft, hright, Matrix.mul?, Matrix.mismatch, hinner, bind, Except.bind, throw, throwThe,
    MonadExceptOf.throw]

theorem tensor_eq_error_of_size [Mul K] {a b : Matrix K} (hleft : s.resolve left = .ok a)
    (hright : s.resolve right = .ok b) (hsize : maxGateDimension < a.rows * b.rows) :
    s.tensor left right = .error (.gateTooLarge (a.rows * b.rows)) := by
  simp [tensor, hleft, hright, hsize, bind, Except.bind, throw, throwThe, MonadExceptOf.throw]

end

end Store

namespace Machine
variable {K R : Type} {m : Machine K} {name : String} {operands : List String} {e : InstructionError}

/-- The machine with one more gate. -/
def withGate (m : Machine K) (name : String) (u : Matrix K) : Machine K :=
  { m with store := { m.store with gates := m.store.gates.insert name u } }

section
open Operation
variable {matrix? : Store K → Except InstructionError (Matrix K)}

theorem defineGate_of_refused (h : m.store.checkDefinition name operands = .error e) :
    (defineGate name operands matrix?).on m = (.error e, m) := by
  rw [defineGate, on_get_bind, on_lift_bind, h]

theorem defineGate_of_error (h : m.store.checkDefinition name operands = .ok ()) (hx : matrix? m.store = .error e) :
    (defineGate name operands matrix?).on m = (.error e, m) := by
  rw [defineGate, on_get_bind, on_lift_bind, h]
  simp only [on_lift_bind, hx]

end

variable [RealScalar R] [Amplitude K R] [Add K] [Mul K] [Zero K] [One K] [BEq K] {i : Instruction}

/-! ### Faults of names -/

theorem run_of_refused (words : Nat → UInt64) (hi : i.definition? = some (name, operands))
    (h : m.store.checkDefinition name operands = .error e) : m.run words i = (.error e, m) := by
  cases i with
  | concat | tensor | inverse =>
    cases hi
    exact Operation.on_bind_pure_of_on (defineGate_of_refused h) none
  | prepare | select | apply | measure => cases hi

/-- Of the operands that do not exist the first from the left is reported, before anything else. -/
theorem run_of_missing (words : Nat → UInt64) (hi : i.definition? = some (name, operands))
    (h : ¬∀ gate ∈ operands, m.store.gateExists gate = true) :
    ∃ gate ∈ operands, m.store.gateExists gate = false ∧ m.run words i = (.error (.noGate gate), m) := by
  cases hfind : operands.find? (fun gate => !m.store.gateExists gate) with
  | none => exact absurd (by simpa using hfind) h
  | some gate =>
    have hgate : m.store.gateExists gate = false := by simpa using List.find?_some hfind
    exact ⟨gate, List.mem_of_find?_eq_some hfind, hgate, run_of_refused words hi (Store.checkDefinition_of_missing hfind)⟩

/-- A name that is taken is reported if all operands exist. -/
theorem run_of_taken (words : Nat → UInt64) (hi : i.definition? = some (name, operands))
    (hexist : ∀ gate ∈ operands, m.store.gateExists gate = true) (h : m.store.checkDefinable name = .error e) :
    m.run words i = (.error e, m) :=
  run_of_refused words hi ((Store.checkDefinition_of_exist hexist).trans h)

theorem run_of_dimensionError (words : Nat → UInt64) (hi : i.definition? = some (name, operands))
    (hexist : ∀ gate ∈ operands, m.store.gateExists gate = true) (hfree : m.store.Free name)
    (h : operands.findSome? Builtin.dimensionError? = some e) : m.run words i = (.error e, m) := by
  have hcheck : m.store.checkDefinition name operands = .ok () :=
    Store.checkDefinition_eq_ok.mpr ⟨hexist, Store.checkDefinable_eq_ok.mpr hfree⟩
  cases i with
  | concat name left right =>
    cases hi
    exact Operation.on_bind_pure_of_on (defineGate_of_error hcheck (Store.bind_resolve_eq_error hexist h)) none
  | tensor name left right =>
    cases hi
    exact Operation.on_bind_pure_of_on (defineGate_of_error hcheck (Store.bind_resolve_eq_error hexist h)) none
  | inverse name gate =>
    cases hi
    have hgate : m.store.resolve gate = .error e := Store.resolve_eq_error.mpr (.inr (by simpa using h))
    have hinverse : m.store.inverse gate = .error e := by
      rw [Store.inverse, hgate]
      rfl
    exact Operation.on_bind_pure_of_on (defineGate_of_error hcheck hinverse) none
  | prepare | select | apply | measure => cases hi

/-! ### Sizes -/

theorem run_concat_of_sizes (words : Nat → UInt64) {left right : String} {a b : Matrix K}
    (hleft : m.store.resolve left = .ok a) (hright : m.store.resolve right = .ok b) (hfree : m.store.Free name)
    (hinner : a.cols ≠ b.rows) :
    m.run words (.concat name left right) = (.error (.concatSizes a.rows b.rows), m) :=
  Operation.on_bind_pure_of_on (defineGate_of_error (Store.checkDefinition_of_resolve hleft hright hfree)
    (Store.concat_eq_error_of_sizes hleft hright hinner)) none

theorem run_tensor_of_size (words : Nat → UInt64) {left right : String} {a b : Matrix K}
    (hleft : m.store.resolve left = .ok a) (hright : m.store.resolve right = .ok b) (hfree : m.store.Free name)
    (hsize : maxGateDimension < a.rows * b.rows) :
    m.run words (.tensor name left right) = (.error (.gateTooLarge (a.rows * b.rows)), m) :=
  Operation.on_bind_pure_of_on (defineGate_of_error (Store.checkDefinition_of_resolve hleft hright hfree)
    (Store.tensor_eq_error_of_size hleft hright hsize)) none

theorem run_of_defines (words : Nat → UInt64) {u : Matrix K} (hdefines : m.store.Defines i name u)
    (hfree : m.store.Free name) : m.run words i = (.ok none, m.withGate name u) :=
  Step.run_eq (.define hdefines (Store.checkDefinable_eq_ok.mpr hfree))

/-! ### Existence -/

theorem resolve_error_of_free (words : Nat → UInt64) (hi : i.definition? = some (name, operands))
    (hexist : ∀ gate ∈ operands, m.store.gateExists gate = true)
    (hunresolved : ∃ gate ∈ operands, ∀ u, m.store.resolve gate ≠ .ok u) (hfree : m.store.Free name) :
    ∃ gate ∈ operands, ∃ e, m.store.resolve gate = .error e ∧ m.run words i = (.error e, m) := by
  cases hfirst : operands.findSome? Builtin.dimensionError? with
  | none =>
    rw [List.findSome?_eq_none_iff] at hfirst
    obtain ⟨gate, hgate, hnone⟩ := hunresolved
    obtain ⟨u, hu⟩ := Store.exists_resolve_iff.mpr ⟨hexist gate hgate, hfirst gate hgate⟩
    exact absurd hu (hnone u)
  | some e =>
    obtain ⟨gate, hgate, hdimension⟩ := List.exists_of_findSome?_eq_some hfirst
    have herror : m.store.resolve gate = .error e := Store.resolve_eq_error.mpr (.inr hdimension)
    exact ⟨gate, hgate, e, herror, run_of_dimensionError words hi hexist hfree hfirst⟩

/-- A gate that exists has a matrix unless it is an identity of a dimension that no gate has. A definition with an
    operand that has no matrix reports such an operand, unless all of them exist by their spelling and the name of the
    definition is taken. -/
theorem exists_iff_resolves (words : Nat → UInt64) :
    (∀ (s : Store K) (name : String),
      (s.gateExists name = true ↔ ∃ u, s.resolve name = .ok u) ↔ Builtin.dimensionError? name = none) ∧
    ∀ (m : Machine K) (i : Instruction) (name : String) (operands : List String),
      i.definition? = some (name, operands) → (∃ gate ∈ operands, ∀ u, m.store.resolve gate ≠ .ok u) →
      ((∃ gate ∈ operands, ∃ e, m.store.resolve gate = .error e ∧ m.run words i = (.error e, m)) ↔
        (∃ gate ∈ operands, m.store.gateExists gate = false) ∨ m.store.Free name) := by
  refine ⟨fun s name => ?_, fun m i name operands hi hunresolved => ?_⟩
  · rw [Store.exists_resolve_iff]
    refine ⟨fun h => ?_, fun h => by simp [h]⟩
    cases hdimension : Builtin.dimensionError? name with
    | none => rfl
    | some e => exact hdimension.symm.trans (h.mp (Store.gateExists_of_dimensionError hdimension)).2
  · by_cases hexist : ∀ gate ∈ operands, m.store.gateExists gate = true
    · have hnone : ¬∃ gate ∈ operands, m.store.gateExists gate = false := by simpa using hexist
      rw [or_iff_right hnone]
      refine ⟨?_, resolve_error_of_free words hi hexist hunresolved⟩
      rintro ⟨gate, hgate, e, he, hrun⟩
      cases htaken : m.store.checkDefinable name with
      | ok => exact Store.checkDefinable_eq_ok.mp htaken
      | error e' =>
        -- An operand is never reported with an error for a taken name.
        cases hrun.symm.trans (run_of_taken words hi hexist htaken)
        exact absurd htaken (Store.checkDefinable_ne_resolve_error he)
    · obtain ⟨gate, hgate, hmissing, hrun⟩ := run_of_missing words hi hexist
      have herror : m.store.resolve gate = .error (.noGate gate) := Store.resolve_eq_error.mpr (.inl ⟨hmissing, rfl⟩)
      exact iff_of_true ⟨gate, hgate, _, herror, hrun⟩ (.inl ⟨gate, hgate, hmissing⟩)

theorem exists_iff_resolves_free :
    let m : Machine FloatComplex := fresh
    (m.store.gateExists "H" = true ↔ ∃ u, m.store.resolve "H" = .ok u) ∧
      ∃ gate ∈ ["I0"], ∃ e, m.store.resolve gate = .error e ∧
        m.run (fun _ => 0) (.inverse "V" "I0") = (.error e, m) := by
  intro m
  have herror : m.store.resolve "I0" = .error (.noGate "I0") := rfl
  have hunresolved : ∃ gate ∈ ["I0"], ∀ u, m.store.resolve gate ≠ .ok u := by
    refine ⟨"I0", List.mem_singleton_self _, fun u hu => ?_⟩
    cases herror.symm.trans hu
  have hfree : m.store.Free "V" := by decide +kernel
  obtain ⟨hresolves, hreports⟩ := exists_iff_resolves (K := FloatComplex) (fun _ => 0)
  exact ⟨(hresolves m.store "H").mpr rfl,
    (hreports m (.inverse "V" "I0") "V" ["I0"] rfl hunresolved).mpr (.inr hfree)⟩

theorem gateExists_identity_zero :
    let m : Machine FloatComplex := fresh
    m.store.gateExists "I0" = true ∧ (¬∃ u, m.store.resolve "I0" = .ok u) ∧
      m.execute (fun _ => 0) "H INVERSE I0" = (.error (.builtinName "H"), m) := by
  intro m
  have herror : m.store.resolve "I0" = .error (.noGate "I0") := rfl
  refine ⟨rfl, ?_, rfl⟩
  rintro ⟨u, hu⟩
  cases herror.symm.trans hu

/-! ### The table of outcomes -/

/-- The name or an operand of a definition is at fault, or the sizes of its operands are. -/
def IsFault (name : String) (operands : List String) : InstructionError → Prop
  | .noGate gate => gate ∈ operands
  | .builtinName other | .registerName other | .gateName other => other = name
  | .gateTooLarge _ | .concatSizes .. => True
  | _ => False

/-- A definition of a free name whose operands have matrices succeeds unless the sizes are at fault. -/
theorem run_of_resolvable (words : Nat → UInt64) (hi : i.definition? = some (name, operands))
    (hexist : ∀ gate ∈ operands, m.store.gateExists gate = true) (hfree : m.store.Free name)
    (hfirst : operands.findSome? Builtin.dimensionError? = none) :
    (∃ u, m.store.Defines i name u ∧ m.run words i = (.ok none, m.withGate name u)) ∨
      ∃ e, m.run words i = (.error e, m) ∧ IsFault name operands e := by
  have hresolve {gate : String} (hgate : gate ∈ operands) : ∃ u, m.store.resolve gate = .ok u :=
    Store.exists_resolve_iff.mpr ⟨hexist gate hgate, List.findSome?_eq_none_iff.mp hfirst gate hgate⟩
  cases i with
  | concat _ left right =>
    cases hi
    obtain ⟨a, ha⟩ := hresolve List.mem_cons_self
    obtain ⟨b, hb⟩ := hresolve (List.mem_cons_of_mem _ List.mem_cons_self)
    by_cases hinner : a.cols = b.rows
    · exact .inl ⟨_, .concat ha hb hinner, run_of_defines words (.concat ha hb hinner) hfree⟩
    · exact .inr ⟨_, run_concat_of_sizes words ha hb hfree hinner, trivial⟩
  | tensor _ left right =>
    cases hi
    obtain ⟨a, ha⟩ := hresolve List.mem_cons_self
    obtain ⟨b, hb⟩ := hresolve (List.mem_cons_of_mem _ List.mem_cons_self)
    by_cases hsize : a.rows * b.rows ≤ maxGateDimension
    · exact .inl ⟨_, .tensor ha hb hsize, run_of_defines words (.tensor ha hb hsize) hfree⟩
    · exact .inr ⟨_, run_tensor_of_size words ha hb hfree (Nat.not_le.mp hsize), trivial⟩
  | inverse _ gate =>
    cases hi
    obtain ⟨a, ha⟩ := hresolve List.mem_cons_self
    exact .inl ⟨_, .inverse ha, run_of_defines words (.inverse ha) hfree⟩
  | prepare | select | apply | measure => cases hi

theorem isFault_of_run (words : Nat → UInt64) (hi : i.definition? = some (name, operands))
    (h : (m.run words i).1 = .error e) : IsFault name operands e := by
  have hfault {e' : InstructionError} (hrun : m.run words i = (.error e', m)) (he' : IsFault name operands e') :
      IsFault name operands e := by
    rw [hrun] at h
    cases h
    exact he'
  by_cases hexist : ∀ gate ∈ operands, m.store.gateExists gate = true
  · cases htaken : m.store.checkDefinable name with
    | error e' =>
      refine hfault (run_of_taken words hi hexist htaken) ?_
      rcases Store.checkDefinable_eq_error.mp htaken with ⟨-, rfl⟩ | ⟨-, -, rfl⟩ | ⟨-, -, -, rfl⟩ <;> rfl
    | ok =>
      have hfree : m.store.Free name := Store.checkDefinable_eq_ok.mp htaken
      cases hfirst : operands.findSome? Builtin.dimensionError? with
      | some e' =>
        refine hfault (run_of_dimensionError words hi hexist hfree hfirst) ?_
        obtain ⟨gate, hgate, hdimension⟩ := List.exists_of_findSome?_eq_some hfirst
        obtain ⟨n, -, ⟨-, rfl⟩ | ⟨-, rfl⟩⟩ := Builtin.dimensionError?_eq_some.mp hdimension
        · exact hgate
        · trivial
      | none =>
        obtain ⟨u, -, hrun⟩ | ⟨e', hrun, he'⟩ := run_of_resolvable words hi hexist hfree hfirst
        · rw [hrun] at h
          cases h
        · exact hfault hrun he'
  · obtain ⟨gate, hgate, -, hrun⟩ := run_of_missing words hi hexist
    exact hfault hrun hgate

/-- After any calls the outcome of a definition is this. If an operand does not exist, the first such operand from the
    left is reported. Else if the name belongs to a builtin gate, a register or a defined gate, this is reported. Else
    if an operand is an identity of a dimension that no gate has, the first such operand is reported. Else all operands
    are square matrices: a product of different dimensions and a Kronecker product above the maximum are reported, and
    every other definition binds the name to a square matrix of the dimension that the operands give. -/
theorem definition_outcomes (words : Nat → UInt64) (cs : List Call) :
    let m : Machine K := fresh.calls words cs
    (∀ i name operands, i.definition? = some (name, operands) →
      (∀ gate, operands.find? (fun gate => !m.store.gateExists gate) = some gate →
        m.run words i = (.error (.noGate gate), m)) ∧
      ((∀ gate ∈ operands, m.store.gateExists gate = true) →
        (Store.isBuiltin name = true → m.run words i = (.error (.builtinName name), m)) ∧
        (m.store.registers.contains name = true → m.run words i = (.error (.registerName name), m)) ∧
        (m.store.gates.contains name = true → m.run words i = (.error (.gateName name), m)) ∧
        (m.store.Free name → ∀ e, operands.findSome? Builtin.dimensionError? = some e →
          m.run words i = (.error e, m))) ∧
      ∀ e, (m.run words i).1 = .error e → IsFault name operands e) ∧
    (∀ name left right, m.store.Free name →
      (∀ gate ∈ [left, right], m.store.gateExists gate = true ∧ Builtin.dimensionError? gate = none) →
      ∃ a b, (m.store.resolve left = .ok a ∧ a.IsSquare) ∧ (m.store.resolve right = .ok b ∧ b.IsSquare) ∧
        (a.rows ≠ b.rows →
          m.run words (.concat name left right) = (.error (.concatSizes a.rows b.rows), m)) ∧
        (a.rows = b.rows → ∃ u, (u.IsSquare ∧ u.rows = a.rows) ∧
          m.run words (.concat name left right) = (.ok none, m.withGate name u)) ∧
        (maxGateDimension < a.rows * b.rows →
          m.run words (.tensor name left right) = (.error (.gateTooLarge (a.rows * b.rows)), m)) ∧
        (a.rows * b.rows ≤ maxGateDimension → ∃ u, (u.IsSquare ∧ u.rows = a.rows * b.rows) ∧
          m.run words (.tensor name left right) = (.ok none, m.withGate name u))) ∧
    ∀ name gate, m.store.Free name → m.store.gateExists gate = true → Builtin.dimensionError? gate = none →
      ∃ a u, (m.store.resolve gate = .ok a ∧ a.IsSquare) ∧ (u.IsSquare ∧ u.rows = a.rows) ∧
        m.run words (.inverse name gate) = (.ok none, m.withGate name u) := by
  intro m
  have hsound := sound_history (K := K) words cs
  refine ⟨fun i name operands hi => ⟨?_, ?_, fun e => isFault_of_run words hi⟩, ?_, ?_⟩
  · intro gate hgate
    exact run_of_refused words hi (Store.checkDefinition_of_missing hgate)
  · intro hexist
    refine ⟨fun hbuiltin => ?_, fun hregister => ?_, fun hgate => ?_, fun hfree e => ?_⟩
    · exact run_of_taken words hi hexist (Store.checkDefinable_eq_error.mpr (.inl ⟨hbuiltin, rfl⟩))
    · exact run_of_taken words hi hexist (hsound.checkDefinable_register hregister)
    · exact run_of_taken words hi hexist (hsound.checkDefinable_gate hgate)
    · exact run_of_dimensionError words hi hexist hfree
  · intro name left right hfree h
    obtain ⟨hleft, hright⟩ : _ ∧ _ := by simpa using h
    obtain ⟨a, ha, hasquare⟩ := hsound.exists_resolve hleft
    obtain ⟨b, hb, hbsquare⟩ := hsound.exists_resolve hright
    refine ⟨a, b, ⟨ha, hasquare⟩, ⟨hb, hbsquare⟩, fun hne => ?_, fun heq => ?_, fun hsize => ?_, fun hsize => ?_⟩
    · exact run_concat_of_sizes words ha hb hfree (hasquare ▸ hne)
    · refine ⟨a.mul b, ⟨heq.trans hbsquare, rfl⟩, run_of_defines words (.concat ha hb ?_) hfree⟩
      exact hasquare.symm.trans heq
    · exact run_tensor_of_size words ha hb hfree hsize
    · exact ⟨a.tensor b, ⟨congrArg₂ (· * ·) hasquare hbsquare, rfl⟩, run_of_defines words (.tensor ha hb hsize) hfree⟩
  · intro name gate hfree hexists hdimension
    obtain ⟨a, ha, hsquare⟩ := hsound.exists_resolve ⟨hexists, hdimension⟩
    exact ⟨a, a.adjoint, ⟨ha, hsquare⟩, ⟨hsquare.symm, hsquare.symm⟩, run_of_defines words (.inverse ha) hfree⟩

theorem definition_outcomes_after_product :
    let words : Nat → UInt64 := fun _ => 0
    let m : Machine FloatComplex := fresh.calls words [.execute "INITIALIZE Q 1", .execute "U CONCAT H R0.5"]
    m.run words (.concat "Q" "X" "I0") = (.error (.noGate "X"), m) ∧
      m.run words (.inverse "Q" "I0") = (.error (.registerName "Q"), m) ∧
      m.run words (.tensor "V" "I2000" "I0") = (.error (.gateTooLarge 2000), m) ∧
      m.run words (.concat "V" "U" "CNOT") = (.error (.concatSizes 2 4), m) ∧
      ∃ u, (u.IsSquare ∧ u.rows = 8) ∧ m.run words (.tensor "V" "U" "CNOT") = (.ok none, m.withGate "V" u) := by
  intro words m
  have hfree : m.store.Free "V" := by decide +kernel
  have hrows : (m.store.resolve "U").toOption.map Matrix.rows = some 2 := by decide +kernel
  obtain ⟨hnames, hpairs, -⟩ :=
    definition_outcomes (K := FloatComplex) words [.execute "INITIALIZE Q 1", .execute "U CONCAT H R0.5"]
  obtain ⟨hmissing, -, -⟩ := hnames (.concat "Q" "X" "I0") "Q" ["X", "I0"] rfl
  obtain ⟨-, htaken, -⟩ := hnames (.inverse "Q" "I0") "Q" ["I0"] rfl
  obtain ⟨-, hdimension, -⟩ := hnames (.tensor "V" "I2000" "I0") "V" ["I2000", "I0"] rfl
  obtain ⟨a, b, ⟨ha, -⟩, ⟨hb, -⟩, hsizes, -, -, htensor⟩ := hpairs "V" "U" "CNOT" hfree (by decide +kernel)
  have ha : a.rows = 2 := by
    have ha : m.store.resolve "U" = .ok a := ha
    rw [ha] at hrows
    exact Option.some.inj hrows
  obtain rfl : b = Builtin.cnotMatrix := Except.ok.inj (hb.symm.trans m.store.resolve_cnot)
  rw [ha] at hsizes htensor
  refine ⟨hmissing "X" (by decide +kernel), (htaken (by decide +kernel)).2.1 (by decide +kernel),
    (hdimension (by decide +kernel)).2.2.2 hfree _ (by decide +kernel), hsizes (by decide), htensor (by decide)⟩

end Machine
end Ketscript
