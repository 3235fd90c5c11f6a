import Ketscript.Proofs.Atomicity
import Ketscript.Proofs.StoreInvariant

/-! What names stand for. An instruction that succeeds changes one entry under a name of its own, or draws a word:
    a new register, the ket of a register, or a new gate. Definitions take only free names, and registers only
    names that are no gate's. So a gate keeps its matrix, a register stays a register, and neither becomes the
    other, however a run goes on. -/

namespace Ketscript

/-- The maps have the same values but for one name. -/
def NameMap.SameExcept {α : Type} (name : String) (a b : NameMap α) : Prop :=
  ∀ other, other ≠ name → a.find? other = b.find? other

namespace Machine
variable {K R : Type}

/-- What an instruction that succeeds leaves and what it changes: `m` is the machine before it, `m'` that after. -/
def Frame (m m' : Machine K) : Instruction → Prop
  | .prepare register _ _ =>
    m'.drawn = m.drawn ∧ m'.store.gates = m.store.gates ∧
      m'.store.registers.SameExcept register m.store.registers ∧ m'.store.registers.contains register = true
  | .apply _ register =>
    m'.drawn = m.drawn ∧ m'.store.gates = m.store.gates ∧
      m'.store.registers.SameExcept register m.store.registers ∧
        ∃ v w, m.store.registers.find? register = some v ∧ m'.store.registers.find? register = some w ∧
          w.size = v.size
  | .concat name _ _ | .tensor name _ _ | .inverse name _ =>
    m'.drawn = m.drawn ∧ m'.store.registers = m.store.registers ∧
      m'.store.gates.SameExcept name m.store.gates ∧
        m.store.gates.contains name = false ∧ m'.store.gates.contains name = true
  | .measure _ => m'.store = m.store ∧ m'.drawn = m.drawn + 1
  | .select .. => False

variable [RealScalar R] [Amplitude K R] [Add K] [Mul K] [Zero K] [One K] [BEq K]
variable {words : Nat → UInt64} {m m' : Machine K} {i : Instruction} {a : Option Bits} {name : String}

theorem Step.frame (h : m.Step words i a m') : m.Frame m' i := by
  cases h with
  | @prepare register =>
    exact ⟨rfl, rfl, fun _ hne => NameMap.find?_insert_of_ne _ hne _,
      NameMap.contains_insert_iff.mpr (.inl rfl)⟩
  | @define _ name u hdefines hfree =>
    cases hdefines <;>
      exact ⟨rfl, rfl, fun _ hne => NameMap.find?_insert_of_ne _ hne _,
        (Store.checkDefinable_eq_ok.mp hfree).2.2, NameMap.contains_insert_iff.mpr (.inl rfl)⟩
  | @apply gate register v u hregister hgate hsize =>
    exact ⟨rfl, rfl, fun _ hne => NameMap.find?_insert_of_ne _ hne _, v, _, hregister,
      NameMap.find?_insert_self _ _ _, (Matrix.size_act u v).trans hsize.2⟩
  | measure hregister hnorm => exact ⟨rfl, rfl⟩

/-! ### Names that stay -/

theorem Step.register_kept (h : m.Step words i a m') (hname : m.store.registers.contains name = true) :
    m'.store.registers.contains name = true := by
  cases h with
  | prepare | apply => exact NameMap.contains_insert_iff.mpr (.inr hname)
  | define | measure => exact hname

theorem Step.gate_kept (h : m.Step words i a m') (hname : m.store.gateExists name = true) :
    m'.store.gateExists name = true := by
  cases h with
  | define =>
    rw [Store.gateExists, Bool.or_eq_true] at hname ⊢
    exact hname.imp id fun hgate => NameMap.contains_insert_iff.mpr (.inr hgate)
  | prepare | apply | measure => exact hname

/-- However a run goes on, a gate keeps its matrix, a register stays a register and no gate gets its name, and a
    gate stays a gate and no register gets its name. An instruction that succeeds changes only what it names. -/
theorem names_kept (words : Nat → UInt64) (cs later : List Call) :
    let m : Machine K := fresh.calls words cs
    let m' := m.calls words later
    (∀ name u, m.store.resolve name = .ok u → m'.store.resolve name = .ok u) ∧
      (∀ name, m.store.registers.contains name = true →
        m'.store.registers.contains name = true ∧ m'.store.gateExists name = false) ∧
      (∀ name, m.store.gateExists name = true →
        m'.store.gateExists name = true ∧ m'.store.registers.contains name = false) ∧
      ∀ (before after : Machine K) i a, before.run words i = (.ok a, after) → before.Frame after i := by
  intro m m'
  have hsteps := calls_steps words later m
  have hsound : m'.store.Sound (fresh.history (K := K) words (cs ++ later)) := by
    rw [show m' = fresh.calls words (cs ++ later) from (calls_append words fresh cs later).symm]
    exact sound_history words (cs ++ later)
  refine ⟨fun name u hu => hsteps.resolve_kept hu, fun name hname => ?_, fun name hname => ?_,
    fun before after i a h => (step_of_run h).frame⟩
  · have hkept := hsteps.invariant (P := fun _ m => m.store.registers.contains name = true)
      (fun _ _ _ _ _ h hstep => hstep.register_kept h) [] hname
    exact ⟨hkept, hsound.not_gate hkept⟩
  · have hkept := hsteps.invariant (P := fun _ m => m.store.gateExists name = true)
      (fun _ _ _ _ _ h hstep => hstep.gate_kept h) [] hname
    refine ⟨hkept, Bool.eq_false_iff.mpr fun hregister => ?_⟩
    cases (hsound.not_gate hregister).symm.trans hkept

theorem names_kept_apply :
    let words : Nat → UInt64 := fun _ => 0
    let m : Machine FloatComplex := fresh.calls words [.script "INITIALIZE Q 1\nU INVERSE I2\n"]
    let m' := m.calls words [.execute "INITIALIZE Q 2", .execute "U CONCAT H H"]
    let after := (m.run words (.apply "U" "Q")).2
    (m.store.resolve "I2" = .ok (Matrix.identity 2 Nat.two_pos) ∧
        m'.store.resolve "I2" = .ok (Matrix.identity 2 Nat.two_pos)) ∧
      (m.store.registers.contains "Q" = true ∧
        m'.store.registers.contains "Q" = true ∧ m'.store.gateExists "Q" = false) ∧
      (m.store.gateExists "U" = true ∧
        m'.store.gateExists "U" = true ∧ m'.store.registers.contains "U" = false) ∧
      m.run words (.apply "U" "Q") = (.ok none, after) ∧ m.Frame after (.apply "U" "Q") := by
  intro words m m' after
  obtain ⟨hresolve, hregister, hgate, hframe⟩ := names_kept (K := FloatComplex) words
    [.script "INITIALIZE Q 1\nU INVERSE I2\n"] [.execute "INITIALIZE Q 2", .execute "U CONCAT H H"]
  have hi : m.store.resolve "I2" = .ok (Matrix.identity 2 Nat.two_pos) := by rfl
  have hq : m.store.registers.contains "Q" = true := by decide
  have hu : m.store.gateExists "U" = true := by decide
  have hrun : m.run words (.apply "U" "Q") = (.ok none, after) := by rfl
  exact ⟨⟨hi, hresolve _ _ hi⟩, ⟨hq, hregister _ hq⟩, ⟨hu, hgate _ hu⟩, hrun, hframe _ _ _ _ hrun⟩

end Machine
end Ketscript
