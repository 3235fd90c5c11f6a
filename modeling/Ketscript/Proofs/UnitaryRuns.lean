import Ketscript.Proofs.BuiltinGates
import Ketscript.Proofs.Registers
import Ketscript.Proofs.Runs

/-! Unitarity in exact arithmetic. The builtin gates are unitary, definitions build unitary gates from unitary
    ones, and unitary gates keep the norm of a register, which is one from the start. So after any calls every
    defined gate is unitary, every register can be measured, and an inverse undoes its gate. -/

namespace Ketscript

/-! ### The invariant -/

namespace Store
variable {s : Store ℂ} {name : String} {u : Matrix ℂ}

/-- All defined gates are unitary, and all registers have norm one. -/
structure Unitary (s : Store ℂ) : Prop where
  gates : ∀ name u, s.gates.find? name = some u → u.IsUnitary
  registers : ∀ name v, s.registers.find? name = some v → Ket.normSq v = 1

theorem Unitary.empty : (Store.empty : Store ℂ).Unitary where
  gates name u h := by cases (NameMap.find?_empty name).symm.trans h
  registers name v h := by cases (NameMap.find?_empty name).symm.trans h

theorem Unitary.resolve (h : s.Unitary) (hu : s.resolve name = .ok u) : u.IsUnitary := by
  rcases resolve_eq_ok.mp hu with ⟨b, -, hb⟩ | ⟨-, hu⟩
  · exact Builtin.matrix?_isUnitary hb
  · exact h.gates name u hu

theorem Unitary.defines (h : s.Unitary) {i : Instruction} (hu : s.Defines i name u) : u.IsUnitary := by
  cases hu with
  | concat hleft hright hinner => exact (h.resolve hleft).mul (h.resolve hright) hinner
  | tensor hleft hright hsize => exact (h.resolve hleft).tensor (h.resolve hright)
  | inverse hgate => exact (h.resolve hgate).adjoint

theorem Unitary.computed (h : s.Unitary) {left right : String}
    (hu : s.concat left right = .ok u ∨ s.tensor left right = .ok u ∨ s.inverse left = .ok u) : u.IsUnitary := by
  rcases hu with hu | hu | hu
  · obtain ⟨a, hleft, b, hright, hinner, rfl⟩ := concat_eq_ok.mp hu
    exact (h.resolve hleft).mul (h.resolve hright) hinner
  · obtain ⟨a, hleft, b, hright, hsize, rfl⟩ := tensor_eq_ok.mp hu
    exact (h.resolve hleft).tensor (h.resolve hright)
  · obtain ⟨a, hgate, rfl⟩ := inverse_eq_ok.mp hu
    exact (h.resolve hgate).adjoint

theorem Unitary.insert_gate (h : s.Unitary) (hu : u.IsUnitary) :
    Unitary { s with gates := s.gates.insert name u } where
  gates other w hw := by
    rcases NameMap.find?_insert_eq_some.mp hw with ⟨rfl, rfl⟩ | ⟨-, hw⟩
    · exact hu
    · exact h.gates other w hw
  registers := h.registers

theorem Unitary.insert_register (h : s.Unitary) {v : Ket ℂ} (hv : Ket.normSq v = 1) :
    Unitary { s with registers := s.registers.insert name v } where
  gates := h.gates
  registers other w hw := by
    rcases NameMap.find?_insert_eq_some.mp hw with ⟨rfl, rfl⟩ | ⟨-, hw⟩
    · exact hv
    · exact h.registers other w hw

end Store

namespace Machine
variable {words : Nat → UInt64} {m m' : Machine ℂ}

theorem Step.unitary (h : m.store.Unitary) {i : Instruction} {a : Option Bits} (hstep : m.Step words i a m') :
    m'.store.Unitary := by
  cases hstep with
  | prepare hcount hbuiltin hgate hqubits hindex =>
    exact h.insert_register (Ket.normSq_basis (Nat.one_shiftLeft _ ▸ Store.basisIndex?_lt hindex))
  | define hdefines hfree => exact h.insert_gate (h.defines hdefines)
  | @apply gate register v u hregister hgate hsize =>
    refine h.insert_register ?_
    rw [(h.resolve hgate).normSq_act hsize.2.symm]
    exact h.registers register v hregister
  | measure hregister hnorm => exact h

theorem unitary_steps {is : List Instruction} (hsteps : m.Steps words is m') (h : m.store.Unitary) :
    m'.store.Unitary :=
  hsteps.invariant (P := fun _ m => m.store.Unitary) (fun _ _ _ _ _ h hstep => hstep.unitary h) [] h

theorem measure_ok (words : Nat → UInt64) (h : m.store.Unitary) {register : String}
    (hregister : m.store.registers.contains register = true) :
    ∃ bits, (m.run words (.measure register)).1 = .ok (some bits) := by
  obtain ⟨v, hv⟩ := NameMap.contains_iff.mp hregister
  have hpos : (0 : ℝ) < Ket.normSq v := by
    rw [h.registers register v hv]
    exact one_pos
  exact ⟨_, congrArg Prod.fst (Step.run_eq (.measure hv hpos))⟩

/-! ### Inverses -/

/-- A gate and then its adjoint leave a register as it was. -/
theorem apply_apply {gate inverse register : String} {u : Matrix ℂ} (hunitary : u.IsUnitary)
    (hgate : m.store.resolve gate = .ok u) (hinverse : m.store.resolve inverse = .ok u.adjoint)
    (h : m.run words (.apply gate register) = (.ok none, m')) :
    m'.run words (.apply inverse register) = (.ok none, m) := by
  cases step_of_run h with
  | define hdefines hfree => cases hdefines
  | @apply _ _ v u' hregister hgate' hsize =>
    cases hgate.symm.trans hgate'
    have hsquare : u.adjoint.IsSquare := hunitary.square.symm
    have hsize' : u.adjoint.rows = (u.act v).size := hsquare.trans (Matrix.size_act u v).symm
    have hback := run_apply words { m with store := { m.store with
      registers := m.store.registers.insert register (u.act v) } }
      (NameMap.find?_insert_self _ _ _) hinverse ⟨hsquare, hsize'⟩
    rw [hback]
    -- The second ket replaces the first, and is the one that was there before both.
    simp only [NameMap.insert_insert_self, hunitary.adjoint_act_act hsize.2.symm, NameMap.insert_eq_self hregister]

/-- A gate that was defined as an inverse undoes the other, then and after any further calls. -/
theorem apply_inverse (h : m.store.Unitary) {inverse gate register : String} {m₂ : Machine ℂ}
    (hdefine : m.run words (.inverse inverse gate) = (.ok none, m')) (later : List Call)
    (happly : (m'.calls words later).run words (.apply gate register) = (.ok none, m₂)) :
    m₂.run words (.apply inverse register) = (.ok none, m'.calls words later) := by
  have hstep := step_of_run hdefine
  cases hstep with
  | define hdefines hfree =>
    cases hdefines with
    | @inverse _ _ u hgate =>
      have hkept := (step_of_run hdefine).resolve_kept hgate
      have hlater := calls_steps words later { m with store := { m.store with
        gates := m.store.gates.insert inverse u.adjoint } }
      exact apply_apply (h.resolve hgate) (hlater.resolve_kept hkept)
        (hlater.resolve_kept (Store.resolve_insert_self hfree)) happly

/-! ### Runs -/

/-- After any calls, every defined gate is unitary, so that what a definition computes passes the check for
    unitarity; every register has norm one, so that it can be measured; and the gate that an instruction
    defines as the inverse of another undoes it from then on. -/
theorem unitary_calls (words : Nat → UInt64) (cs : List Call) :
    let m : Machine ℂ := fresh.calls words cs
    (∀ name u, m.store.gates.find? name = some u →
      ∃ one, Matrix.identity? u.rows = .ok one ∧ u.mul? u.adjoint = .ok one ∧ u.adjoint.mul? u = .ok one) ∧
    (∀ left right u, m.store.concat left right = .ok u ∨ m.store.tensor left right = .ok u ∨
        m.store.inverse left = .ok u →
      ∀ tolerance : ℝ, 0 ≤ tolerance → u.checkUnitary tolerance = .ok ()) ∧
    (∀ name v, m.store.registers.find? name = some v → Ket.normSq v = 1) ∧
    (∀ name, m.store.registers.contains name = true →
      ∃ bits, (m.run words (.measure name)).1 = .ok (some bits)) ∧
    ∀ inverse gate m₁, m.run words (.inverse inverse gate) = (.ok none, m₁) →
      ∀ later register m₂, (m₁.calls words later).run words (.apply gate register) = (.ok none, m₂) →
        m₂.run words (.apply inverse register) = (.ok none, m₁.calls words later) := by
  intro m
  have h : m.store.Unitary := unitary_steps (calls_steps words cs fresh) Store.Unitary.empty
  refine ⟨fun name u hu => (h.gates name u hu).exists_identity, ?_, h.registers, ?_, ?_⟩
  · intro left right u hu tolerance ht
    exact (h.computed hu).checkUnitary ht
  · intro name hname
    exact measure_ok words h hname
  · intro inverse gate m₁ hdefine later register m₂ happly
    exact apply_inverse h hdefine later happly

theorem unitary_calls_inverse :
    let words : Nat → UInt64 := fun _ => 0
    let m : Machine ℂ := fresh.calls words [.run (.prepare "Q" "1" none)]
    let m₁ := (m.run words (.inverse "V" "R0.5")).2
    let m₂ := (m₁.run words (.apply "R0.5" "Q")).2
    (∃ bits, (m.run words (.measure "Q")).1 = .ok (some bits)) ∧
      m₂.run words (.apply "V" "Q") = (.ok none, m₁) := by
  intro words m m₁ m₂
  obtain ⟨-, -, -, hmeasure, hinverse⟩ := unitary_calls words [.run (.prepare "Q" "1" none)]
  have hgate (s : Store ℂ) := (s.resolve_of_ofName? (by decide)).trans (Builtin.matrix?_phase "R0.5" 5 1)
  have hdefines : m.store.Defines (.inverse "V" "R0.5") "V" _ := .inverse (hgate m.store)
  have hdefine := (Step.define hdefines rfl : m.Step words _ none _).run_eq
  have hm₁ : m₁ = _ := congrArg Prod.snd hdefine
  have hregister : m₁.store.registers.find? "Q" = some (Ket.basis 2 0) := by
    rw [hm₁]
    rfl
  have happly := run_apply words m₁ hregister (hgate m₁.store) ⟨rfl, rfl⟩
  have hm₂ : m₂ = _ := congrArg Prod.snd happly
  exact ⟨hmeasure "Q" rfl, hinverse "V" "R0.5" m₁ (hm₁ ▸ hdefine) [] "Q" m₂ (hm₂ ▸ happly)⟩

end Machine
end Ketscript
