import Ketscript.Proofs.Atomicity

/-! Independent instructions. An instruction reads the store under its own names and writes under at most one of
    them, and only a measurement looks at the random words. So two instructions of which neither writes under a
    name of the other can change places, if not both are measurements: each has the same answer, also if it is an
    error, and the machine is the same after both. -/

namespace Ketscript

namespace Instruction
variable {i j : Instruction}

/-- The names of registers and gates in an instruction. -/
def names : Instruction → List String
  | prepare register _ _ => [register]
  | select target source _ _ => [target, source]
  | concat name left right | tensor name left right => [name, left, right]
  | inverse name gate => [name, gate]
  | apply gate register => [gate, register]
  | measure register => [register]

/-- The name under which an instruction may write. -/
def written? : Instruction → Option String
  | prepare register _ _ | apply _ register => some register
  | concat name _ _ | tensor name _ _ | inverse name _ => some name
  | select .. | measure _ => none

theorem mem_names_of_written? {name : String} (h : i.written? = some name) : name ∈ i.names := by
  cases i with
  | prepare | apply | concat | tensor | inverse =>
    cases h
    simp [names]
  | select | measure => cases h

/-- Neither instruction writes under a name of the other, and not both are measurements. -/
structure Independent (i j : Instruction) : Prop where
  left : ∀ name, i.written? = some name → name ∉ j.names
  right : ∀ name, j.written? = some name → name ∉ i.names
  measure : ¬(i.isMeasure = true ∧ j.isMeasure = true)

theorem Independent.symm (h : Independent i j) : Independent j i := ⟨h.right, h.left, fun hm => h.measure hm.symm⟩

end Instruction

namespace Store
variable {K R : Type} {s t : Store K} {names : List String} {name : String}

/-! ### Entries that are put into stores -/

/-- What a store has under a name. -/
inductive Entry (K : Type) where
  | register (v : Ket K)
  | gate (u : Matrix K)

/-- The store with a new entry under a name. -/
def put (s : Store K) (name : String) : Entry K → Store K
  | .register v => { s with registers := s.registers.insert name v }
  | .gate u => { s with gates := s.gates.insert name u }

theorem put_comm (s : Store K) {a b : String} (h : a ≠ b) (x y : Entry K) :
    (s.put a x).put b y = (s.put b y).put a x := by
  cases x with
  | register v =>
    cases y with
    | register w => simp [put, NameMap.insert_comm s.registers h]
    | gate w => rfl
  | gate u =>
    cases y with
    | register w => rfl
    | gate w => simp [put, NameMap.insert_comm s.gates h]

/-- Both operations fail alike and leave their stores as they were, or put the same entry under the name. -/
def PutAlike (s t : Store K) (name : String) (x y : Except InstructionError Unit × Store K) : Prop :=
  (∃ e, x = (.error e, s) ∧ y = (.error e, t)) ∨ ∃ entry, x = (.ok (), s.put name entry) ∧ y = (.ok (), t.put name entry)

namespace PutAlike
open Operation
variable {α : Type}

theorem put (e : Entry K) : PutAlike s t name (.ok (), s.put name e) (.ok (), t.put name e) := .inr ⟨e, rfl, rfl⟩

theorem lift_bind {y : Except InstructionError α} {f g : α → Operation (Store K) Unit}
    (h : ∀ a, PutAlike s t name ((f a).on s) ((g a).on t)) :
    PutAlike s t name ((liftM y >>= f).on s) ((liftM y >>= g).on t) := by
  rw [on_lift_bind, on_lift_bind]
  cases y with
  | error e => exact .inl ⟨e, rfl, rfl⟩
  | ok a => exact h a

theorem failIf_bind {p : Prop} [Decidable p] {e : InstructionError} {f g : Unit → Operation (Store K) Unit}
    (h : PutAlike s t name ((f ()).on s) ((g ()).on t)) :
    PutAlike s t name ((failIf p e >>= f).on s) ((failIf p e >>= g).on t) := by
  rw [on_failIf_bind, on_failIf_bind]
  by_cases hp : p
  · rw [if_pos hp, if_pos hp]
    exact .inl ⟨e, rfl, rfl⟩
  · rwa [if_neg hp, if_neg hp]

end PutAlike

/-! ### Stores with the same entries under some names -/

/-- The stores have the same registers and gates under the names. -/
def SameOn (names : List String) (s t : Store K) : Prop :=
  ∀ name ∈ names, s.registers.find? name = t.registers.find? name ∧ s.gates.find? name = t.gates.find? name

theorem SameOn.refl (names : List String) (s : Store K) : s.SameOn names s := fun _ _ => ⟨rfl, rfl⟩

theorem sameOn_put (s : Store K) (e : Entry K) (h : name ∉ names) : s.SameOn names (s.put name e) := by
  intro other hother
  have hne : other ≠ name := fun heq => h (heq ▸ hother)
  cases e with
  | register v => exact ⟨(NameMap.find?_insert_of_ne _ hne v).symm, rfl⟩
  | gate u => exact ⟨rfl, (NameMap.find?_insert_of_ne _ hne u).symm⟩

namespace SameOn
open Operation

theorem registers_contains (h : s.SameOn names t) (hname : name ∈ names) :
    s.registers.contains name = t.registers.contains name := by
  unfold NameMap.contains
  rw [(h name hname).1]

theorem gates_contains (h : s.SameOn names t) (hname : name ∈ names) :
    s.gates.contains name = t.gates.contains name := by
  unfold NameMap.contains
  rw [(h name hname).2]

theorem requireGate (h : s.SameOn names t) (hname : name ∈ names) : s.requireGate name = t.requireGate name := by
  unfold Store.requireGate gateExists
  rw [h.gates_contains hname]

theorem checkDefinable (h : s.SameOn names t) (hname : name ∈ names) :
    s.checkDefinable name = t.checkDefinable name := by
  unfold Store.checkDefinable
  rw [h.registers_contains hname, h.gates_contains hname]

theorem checkDefinition (h : s.SameOn names t) (hname : name ∈ names) {operands : List String}
    (hoperands : ∀ gate ∈ operands, gate ∈ names) :
    s.checkDefinition name operands = t.checkDefinition name operands := by
  have hall (l : List String) (hl : ∀ gate ∈ l, gate ∈ names) : l.forM s.requireGate = l.forM t.requireGate := by
    induction l with
    | nil => rfl
    | cons gate rest ih =>
      rw [List.forall_mem_cons] at hl
      simp only [List.forM_eq_forM, List.forM_cons] at ih ⊢
      rw [h.requireGate hl.1, ih hl.2]
  unfold Store.checkDefinition
  rw [hall operands hoperands, h.checkDefinable hname]

theorem define (h : s.SameOn names t) (hname : name ∈ names) (u : Matrix K) :
    PutAlike s t name ((Store.define name u).on s) ((Store.define name u).on t) := by
  rw [Store.define, on_get_bind, on_get_bind, h.checkDefinable hname]
  exact .lift_bind fun _ => .put (.gate u)

theorem register? (h : s.SameOn names t) (hname : name ∈ names) : s.register? name = t.register? name := by
  unfold Store.register?
  rw [(h name hname).1]

variable [RealScalar R] [Amplitude K R] [Zero K] [One K]

theorem resolve (h : s.SameOn names t) (hname : name ∈ names) : s.resolve name = t.resolve name := by
  unfold Store.resolve
  rw [(h name hname).2]

theorem concat [Add K] [Mul K] [BEq K] (h : s.SameOn names t) {left right : String} (hleft : left ∈ names)
    (hright : right ∈ names) : s.concat left right = t.concat left right := by
  unfold Store.concat
  rw [h.resolve hleft, h.resolve hright]

theorem tensor [Mul K] (h : s.SameOn names t) {left right : String} (hleft : left ∈ names)
    (hright : right ∈ names) : s.tensor left right = t.tensor left right := by
  unfold Store.tensor
  rw [h.resolve hleft, h.resolve hright]

theorem inverse (h : s.SameOn names t) {gate : String} (hgate : gate ∈ names) : s.inverse gate = t.inverse gate := by
  unfold Store.inverse
  rw [h.resolve hgate]

theorem measure (h : s.SameOn names t) {register : String} (hregister : register ∈ names) (words : Nat → UInt64) :
    s.measure words register = t.measure words register := by
  unfold Store.measure
  rw [h.register? hregister]

theorem create (h : s.SameOn names t) (hname : name ∈ names) (qubits : Nat) (bits : Option String) :
    PutAlike s t name ((Store.create name qubits bits).on s) ((Store.create name qubits bits).on t) := by
  rw [Store.create, on_get_bind, on_get_bind, h.gates_contains hname]
  exact .failIf_bind (.failIf_bind (.failIf_bind (.lift_bind fun index => .put (.register _))))

theorem apply [Add K] [Mul K] (h : s.SameOn names t) {gate register : String} (hgate : gate ∈ names)
    (hregister : register ∈ names) :
    PutAlike s t register ((Store.apply gate register).on s) ((Store.apply gate register).on t) := by
  rw [Store.apply, on_get_bind, on_get_bind, h.register? hregister, h.resolve hgate]
  exact .lift_bind fun v => .lift_bind fun u => .failIf_bind (.lift_bind fun w => .put (.register w))

end SameOn
end Store

namespace Machine
variable {K R : Type} {m m' : Machine K} {i j : Instruction}

/-! ### Changes of the machine -/

/-- What an instruction does to the machine: nothing, a new entry in the store, or the drawing of a word. -/
inductive Change (K : Type) where
  | keep
  | put (name : String) (entry : Store.Entry K)
  | draw

namespace Change

/-- The machine after a change. -/
def on : Change K → Machine K → Machine K
  | keep, m => m
  | put name entry, m => { m with store := m.store.put name entry }
  | draw, m => { m with drawn := m.drawn + 1 }

/-- The instruction may change the machine so. -/
def Within (i : Instruction) : Change K → Prop
  | keep => True
  | put name _ => i.written? = some name
  | draw => i.isMeasure = true

variable {c d : Change K}

theorem Within.sameOn (hc : c.Within i) (h : i.Independent j) (m : Machine K) :
    m.store.SameOn j.names (c.on m).store := by
  cases c with
  | keep | draw => exact .refl j.names m.store
  | put name entry => exact Store.sameOn_put m.store entry (h.left name hc)

theorem Within.drawn (hc : c.Within i) (h : i.Independent j) (m : Machine K) (hj : j.isMeasure = true) :
    m.drawn = (c.on m).drawn := by
  cases c with
  | keep | put => rfl
  | draw => exact absurd ⟨hc, hj⟩ h.measure

theorem Within.comm (hc : c.Within i) (hd : d.Within j) (h : i.Independent j) (m : Machine K) :
    d.on (c.on m) = c.on (d.on m) := by
  cases c with
  | keep => rfl
  | put a x =>
    cases d with
    | keep | draw => rfl
    | put b y =>
      have hne : a ≠ b := fun heq => h.left a hc (heq ▸ Instruction.mem_names_of_written? hd)
      simp [on, Store.put_comm m.store hne]
  | draw => cases d <;> rfl

end Change

/-- Both results come with the same answer and the same change, one that the instruction may make. -/
def Alike (i : Instruction) (m m' : Machine K) (x y : Answer × Machine K) : Prop :=
  ∃ (a : Answer) (c : Change K), c.Within i ∧ x = (a, c.on m) ∧ y = (a, c.on m')

namespace Alike
open Operation
variable {α : Type} {x y : Operation (Store K) Unit}

theorem lift_bind {z : Except InstructionError α} {f g : α → Operation (Machine K) (Option Bits)}
    (h : ∀ a, Alike i m m' ((f a).on m) ((g a).on m')) :
    Alike i m m' ((liftM z >>= f).on m) ((liftM z >>= g).on m') := by
  rw [on_lift_bind, on_lift_bind]
  cases z with
  | error e => exact ⟨.error e, .keep, trivial, rfl, rfl⟩
  | ok a => exact h a

theorem onStore {name : String} (h : Store.PutAlike m.store m'.store name (x.on m.store) (y.on m'.store))
    (hi : i.written? = some name) : Alike i m m'
      ((Machine.onStore x >>= fun _ => pure none).on m) ((Machine.onStore y >>= fun _ => pure none).on m') := by
  rcases h with ⟨e, hx, hy⟩ | ⟨entry, hx, hy⟩
  · exact ⟨.error e, .keep, trivial, onStore_bind_pure hx, onStore_bind_pure hy⟩
  · exact ⟨.ok none, .put name entry, hi, onStore_bind_pure hx, onStore_bind_pure hy⟩

theorem defineGate {name : String} (h : m.store.SameOn i.names m'.store) (hi : i.written? = some name)
    {operands : List String} (hoperands : ∀ gate ∈ operands, gate ∈ i.names)
    {matrix? : Store K → Except InstructionError (Matrix K)} (hmatrix : matrix? m.store = matrix? m'.store) :
    Alike i m m' ((Machine.defineGate name operands matrix? >>= fun _ => pure none).on m)
      ((Machine.defineGate name operands matrix? >>= fun _ => pure none).on m') := by
  have hname : name ∈ i.names := Instruction.mem_names_of_written? hi
  simp only [Machine.defineGate, bind_assoc, on_get_bind]
  rw [h.checkDefinition hname hoperands, hmatrix]
  exact .lift_bind fun _ => .lift_bind fun u => .onStore (h.define hname u) hi

end Alike

variable [RealScalar R] [Amplitude K R] [Add K] [Mul K] [Zero K] [One K] [BEq K]

/-- Machines that have the same under the names of an instruction, and are at the same random word if it is a
    measurement, answer it alike and change alike. -/
theorem alike_run (words : Nat → UInt64) (h : m.store.SameOn i.names m'.store)
    (hdrawn : i.isMeasure = true → m.drawn = m'.drawn) : Alike i m m' (m.run words i) (m'.run words i) := by
  cases i with
  | prepare register qubits state =>
    exact .lift_bind fun k => .onStore (h.create List.mem_cons_self k state) rfl
  | select => exact ⟨_, .keep, trivial, rfl, rfl⟩
  | concat name left right =>
    refine .defineGate h rfl (by simp [Instruction.names]) ?_
    exact h.concat (by simp [Instruction.names]) (by simp [Instruction.names])
  | tensor name left right =>
    refine .defineGate h rfl (by simp [Instruction.names]) ?_
    exact h.tensor (by simp [Instruction.names]) (by simp [Instruction.names])
  | inverse name gate =>
    refine .defineGate h rfl (by simp [Instruction.names]) ?_
    exact h.inverse (by simp [Instruction.names])
  | apply gate register =>
    exact .onStore (h.apply (by simp [Instruction.names]) (by simp [Instruction.names])) rfl
  | measure register =>
    have hsame : m.store.measure words register = m'.store.measure words register := h.measure List.mem_cons_self words
    rcases m.store.measure_cases register with ⟨e, he⟩ | ⟨v, -, hv⟩
    · exact ⟨.error e, .keep, trivial, run_measure words m (he words _), run_measure words m' (hsame ▸ he words _)⟩
    · refine ⟨.ok (some _), .draw, rfl, run_measure words m (hv words _), ?_⟩
      rw [hdrawn rfl]
      exact run_measure words m' (hsame ▸ hv words _)

/-- An instruction leaves what an independent one reads. -/
theorem sameOn_run (words : Nat → UInt64) (m : Machine K) (h : i.Independent j) :
    m.store.SameOn j.names (m.run words i).2.store ∧ (j.isMeasure = true → m.drawn = (m.run words i).2.drawn) := by
  obtain ⟨a, c, hc, hrun, -⟩ := alike_run words (.refl i.names m.store) fun _ => rfl
  rw [hrun]
  exact ⟨hc.sameOn h m, hc.drawn h m⟩

/-- Independent instructions can change places. -/
theorem run_comm (words : Nat → UInt64) (m : Machine K) (h : i.Independent j) :
    ((m.run words j).2.run words i).1 = (m.run words i).1 ∧
      ((m.run words i).2.run words j).1 = (m.run words j).1 ∧
        ((m.run words i).2.run words j).2 = ((m.run words j).2.run words i).2 := by
  -- Each instruction makes one and the same change, whether it comes first or second.
  obtain ⟨hsame, hdrawn⟩ := sameOn_run words m h
  obtain ⟨hsame', hdrawn'⟩ := sameOn_run words m h.symm
  obtain ⟨a, c, hc, hfirst, hsecond⟩ := alike_run words hsame' hdrawn'
  obtain ⟨b, d, hd, hfirst', hsecond'⟩ := alike_run words hsame hdrawn
  refine ⟨?_, ?_, ?_⟩
  · rw [hsecond, hfirst]
  · rw [hsecond', hfirst']
  · calc ((m.run words i).2.run words j).2
        = d.on (c.on m) := by rw [hsecond', hfirst]
      _ = c.on (d.on m) := hc.comm hd h m
      _ = ((m.run words j).2.run words i).2 := by rw [hsecond, hfirst']

theorem run_comm_apply_concat :
    let words : Nat → UInt64 := fun _ => 0
    let m : Machine FloatComplex := fresh.calls words [.execute "INITIALIZE Q 1"]
    let i : Instruction := .apply "H" "Q"
    let j : Instruction := .concat "U" "H" "R0.5"
    i.Independent j ∧ ((m.run words j).2.run words i).1 = (m.run words i).1 ∧
      ((m.run words i).2.run words j).1 = (m.run words j).1 ∧
        ((m.run words i).2.run words j).2 = ((m.run words j).2.run words i).2 := by
  intro words m i j
  have h : i.Independent j := by
    constructor <;> simp [i, j, Instruction.written?, Instruction.names, Instruction.isMeasure]
  exact ⟨h, run_comm words m h⟩

end Machine
end Ketscript
