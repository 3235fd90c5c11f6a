import Ketscript.Console.Script
import Ketscript.Proofs.Operations

/-! Runs of the machine. A machine is called with a line, an instruction or a script, and the next call goes
    on from what the last one left. The history of the calls is the list of the instructions that succeeded.
    The machine takes exactly their steps, whatever else failed, so what every step keeps holds after all
    calls. -/

namespace Ketscript

/-- A call of the machine. -/
inductive Call where
  | execute (line : String)
  | run (instruction : Instruction)
  | script (text : String)

/-- A call that is made with a text. -/
def Call.IsText : Call → Prop
  | .execute _ | .script _ => True
  | .run _ => False

namespace Machine
variable {K R : Type} [RealScalar R] [Amplitude K R] [Add K] [Mul K] [Zero K] [One K] [BEq K]
variable {words : Nat → UInt64} {m m' : Machine K}

/-- The machine after a call. -/
def call (words : Nat → UInt64) (m : Machine K) : Call → Machine K
  | .execute line => (m.execute words line).2
  | .run instruction => (m.run words instruction).2
  | .script text => (m.runScript words text).machine

/-- The machine after calls, one after the other. -/
def calls (words : Nat → UInt64) (m : Machine K) (cs : List Call) : Machine K := cs.foldl (call words) m

theorem calls_append (words : Nat → UInt64) (m : Machine K) (cs later : List Call) :
    m.calls words (cs ++ later) = (m.calls words cs).calls words later := List.foldl_append

/-! ### History -/

/-- The instruction if it succeeds. -/
def performed? (words : Nat → UInt64) (m : Machine K) (instruction : Instruction) : Option Instruction :=
  if (m.run words instruction).1.isOk then some instruction else none

/-- The instruction that a line spells, if it succeeds. -/
def performedLine? (words : Nat → UInt64) (m : Machine K) (line : String) : Option Instruction :=
  match Instruction.ofLine? line with
  | .ok instruction => m.performed? words instruction
  | .error _ => none

/-- The instructions of lines, up to the first that fails. -/
def performedLines (words : Nat → UInt64) : List String → Machine K → List Instruction
  | [], _ => []
  | line :: rest, m =>
    let line := Text.trim line
    if isRemark line then performedLines words rest m
    else match m.performedLine? words line with
      | some instruction => instruction :: performedLines words rest (m.execute words line).2
      | none => []

/-- The instructions that succeed in a call. -/
def performed (words : Nat → UInt64) (m : Machine K) : Call → List Instruction
  | .execute line => (m.performedLine? words line).toList
  | .run instruction => (m.performed? words instruction).toList
  | .script text => performedLines words (Text.lines text) m

/-- The instructions that succeed in calls, one after the other. -/
def history (words : Nat → UInt64) : Machine K → List Call → List Instruction
  | _, [] => []
  | m, c :: cs => m.performed words c ++ history words (m.call words c) cs

theorem spelled_performedLine? {line : String} {i : Instruction} (h : i ∈ m.performedLine? words line) :
    Instruction.ofLine? line = .ok i := by
  unfold performedLine? performed? at h
  split at h
  · rename_i hline
    split at h
    · cases h
      exact hline
    · cases h
  · cases h

/-- Calls with text perform only what lines spell. -/
theorem spelled_performed {c : Call} (hc : c.IsText) {i : Instruction} (hi : i ∈ m.performed words c) :
    ∃ line, Instruction.ofLine? line = .ok i := by
  have loop (lines : List String) (m : Machine K) (hi : i ∈ performedLines words lines m) :
      ∃ line, Instruction.ofLine? line = .ok i := by
    induction lines generalizing m with
    | nil => cases hi
    | cons line rest ih =>
      simp only [performedLines] at hi
      split at hi
      · exact ih m hi
      · split at hi
        · rename_i hsome
          rcases List.mem_cons.mp hi with rfl | hi
          · exact ⟨_, spelled_performedLine? hsome⟩
          · exact ih _ hi
        · cases hi
  cases c with
  | execute line => exact ⟨line, spelled_performedLine? (Option.mem_toList.mp hi)⟩
  | run instruction => exact hc.elim
  | script text => exact loop (Text.lines text) m hi

theorem spelled_history {cs : List Call} (hcs : ∀ c ∈ cs, c.IsText) {i : Instruction}
    (hi : i ∈ m.history words cs) : ∃ line, Instruction.ofLine? line = .ok i := by
  induction cs generalizing m with
  | nil => cases hi
  | cons c cs ih =>
    rcases List.mem_append.mp hi with hi | hi
    · exact spelled_performed (hcs c List.mem_cons_self) hi
    · exact ih (fun c hc => hcs c (List.mem_cons_of_mem _ hc)) hi

/-! ### Steps of a run -/

/-- Instructions that succeed one after the other. -/
inductive Steps (words : Nat → UInt64) : Machine K → List Instruction → Machine K → Prop
  | nil {m : Machine K} : Steps words m [] m
  | cons {m m' m'' : Machine K} {i is a} (head : m.run words i = (.ok a, m')) (tail : Steps words m' is m'') :
      Steps words m (i :: is) m''

theorem Steps.append {m'' : Machine K} {is js : List Instruction} (h : m.Steps words is m')
    (h' : m'.Steps words js m'') : m.Steps words (is ++ js) m'' := by
  induction h with
  | nil => exact h'
  | cons head _ ih => exact .cons head (ih h')

/-- What holds at first and is kept by every step holds after all steps. `past` is what came before. -/
theorem Steps.invariant {P : List Instruction → Machine K → Prop}
    (hstep : ∀ past m i a m', P past m → m.Step words i a m' → P (past ++ [i]) m')
    {is : List Instruction} (h : m.Steps words is m') (past : List Instruction) (hm : P past m) :
    P (past ++ is) m' := by
  induction h generalizing past with
  | nil => rwa [List.append_nil]
  | @cons _ _ _ i _ _ head _ ih =>
    rw [List.append_cons]
    exact ih (past ++ [i]) (hstep _ _ _ _ _ hm (run_eq_ok_iff.mp head))

/-! ### Gates stay -/

/-- A gate keeps its matrix: no definition may take its name. -/
theorem Step.resolve_kept {i : Instruction} {a : Option Bits} (hstep : m.Step words i a m') {name : String}
    {u : Matrix K} (hu : m.store.resolve name = .ok u) : m'.store.resolve name = .ok u := by
  cases hstep with
  | define hdefines hfree =>
    obtain ⟨-, -, hnew⟩ := Store.checkDefinable_eq_ok.mp hfree
    rw [Store.resolve_eq_ok] at hu ⊢
    refine hu.imp id fun ⟨hbuiltin, hgate⟩ => ⟨hbuiltin, ?_⟩
    rw [NameMap.find?_insert_of_ne, hgate]
    -- If the new gate had this name, the name would not have been free.
    rintro rfl
    cases hnew.symm.trans (NameMap.contains_of_find? hgate)
  | prepare | apply | measure => exact hu

theorem Steps.resolve_kept {is : List Instruction} (h : m.Steps words is m') {name : String} {u : Matrix K}
    (hu : m.store.resolve name = .ok u) : m'.store.resolve name = .ok u :=
  h.invariant (P := fun _ m => m.store.resolve name = .ok u) (fun _ _ _ _ _ hu hstep => hstep.resolve_kept hu) [] hu

/-! ### Definitions stay -/

/-- What an instruction would define stays the same, for the gates that it builds on do. -/
theorem Step.defines_kept {i j : Instruction} {a : Option Bits} (hstep : m.Step words j a m') {name : String}
    {u : Matrix K} (h : m.store.Defines i name u) : m'.store.Defines i name u := by
  cases h with
  | concat hleft hright hinner => exact .concat (hstep.resolve_kept hleft) (hstep.resolve_kept hright) hinner
  | tensor hleft hright hsize => exact .tensor (hstep.resolve_kept hleft) (hstep.resolve_kept hright) hsize
  | inverse hgate => exact .inverse (hstep.resolve_kept hgate)

/-- A definition that has succeeded is an equation between gates that holds from then on. -/
theorem Steps.exists_defines {is : List Instruction} (h : m.Steps words is m') {i : Instruction} (hi : i ∈ is)
    (hdefinition : i.definition?.isSome) :
    ∃ name u, m'.store.Defines i name u ∧ m'.store.resolve name = .ok u := by
  refine h.invariant (P := fun past m => ∀ i ∈ past, i.definition?.isSome →
    ∃ name u, m.store.Defines i name u ∧ m.store.resolve name = .ok u) ?_ [] (by simp) i hi hdefinition
  intro past m j a m' hpast hstep i hi hdefinition
  rcases List.mem_append.mp hi with hi | hi
  · obtain ⟨name, u, hdefines, hu⟩ := hpast i hi hdefinition
    exact ⟨name, u, hstep.defines_kept hdefines, hstep.resolve_kept hu⟩
  · obtain rfl := List.mem_singleton.mp hi
    have hkept {name : String} {u : Matrix K} (h : m.store.Defines i name u) : m'.store.Defines i name u :=
      hstep.defines_kept h
    cases hstep with
    | @define _ name u hdefines hfree => exact ⟨name, u, hkept hdefines, Store.resolve_insert_self hfree⟩
    | prepare | apply | measure => cases hdefinition

/-! ### Runs of calls -/

theorem performed?_cases (words : Nat → UInt64) (m : Machine K) (i : Instruction) :
    (m.performed? words i = none ∧ ∃ e, m.run words i = (.error e, m)) ∨
      ∃ a m', m.performed? words i = some i ∧ m.run words i = (.ok a, m') := by
  unfold performed?
  rcases run_cases words m i with ⟨e, he⟩ | ⟨a, m', hrun⟩
  · rw [he]
    exact .inl ⟨rfl, e, rfl⟩
  · rw [hrun]
    exact .inr ⟨a, m', rfl, rfl⟩

theorem performedLine?_cases (words : Nat → UInt64) (m : Machine K) (line : String) :
    (m.performedLine? words line = none ∧ ∃ e, m.execute words line = (.error e, m)) ∨
      ∃ i a m', m.performedLine? words line = some i ∧ m.execute words line = (.ok a, m') ∧
        m.run words i = (.ok a, m') := by
  unfold performedLine?
  cases hline : Instruction.ofLine? line with
  | error cause => exact .inl ⟨rfl, _, execute_of_syntaxError words m hline⟩
  | ok i =>
    rw [execute_of_ofLine? words m hline]
    exact (performed?_cases words m i).imp id fun ⟨a, m', hsome, hrun⟩ => ⟨i, a, m', hsome, hrun, hrun⟩

theorem runLines_steps (words : Nat → UInt64) (lines : List String) (number : Nat) (m : Machine K) :
    m.Steps words (performedLines words lines m) (runLines words number lines m).machine := by
  induction lines generalizing number m with
  | nil => exact .nil
  | cons line rest ih =>
    simp only [performedLines, runLines]
    split
    · exact ih (number + 1) m
    · rcases performedLine?_cases words m (Text.trim line) with ⟨hnone, e, he⟩ | ⟨i, a, m', hsome, hm', hrun⟩
      · rw [hnone, he]
        exact .nil
      · rw [hsome, hm']
        cases a with
        | none => exact .cons hrun (ih (number + 1) m')
        | some bits => exact .cons hrun (ih (number + 1) m')

theorem call_steps (words : Nat → UInt64) (m : Machine K) (c : Call) :
    m.Steps words (m.performed words c) (m.call words c) := by
  cases c with
  | execute line =>
    simp only [performed, call]
    rcases performedLine?_cases words m line with ⟨hnone, e, he⟩ | ⟨i, a, m', hsome, hm', hrun⟩
    · rw [hnone, he]
      exact .nil
    · rw [hsome, hm']
      exact .cons hrun .nil
  | run instruction =>
    simp only [performed, call]
    rcases performed?_cases words m instruction with ⟨hnone, e, he⟩ | ⟨a, m', hsome, hrun⟩
    · rw [hnone, he]
      exact .nil
    · rw [hsome, hrun]
      exact .cons hrun .nil
  | script text => exact runLines_steps words (Text.lines text) 1 m

/-- The calls take the steps of their history. -/
theorem calls_steps (words : Nat → UInt64) (cs : List Call) (m : Machine K) :
    m.Steps words (m.history words cs) (m.calls words cs) := by
  induction cs generalizing m with
  | nil => exact .nil
  | cons c cs ih => exact (call_steps words m c).append (ih (m.call words c))

end Machine
end Ketscript
