import Ketscript.Proofs.Binary64.Arithmetic
import Ketscript.Proofs.Linear.Unitary
import Ketscript.Proofs.StoreInvariant

/-! Inverses of gates. The inverse of a gate is its adjoint, which is undone by a second one in every bit of a binary64
    number. In exact arithmetic the adjoint of a product is the product of the adjoints in the other order, and that of
    a Kronecker product is the Kronecker product of the adjoints in the same order. The definitions of a run are
    equations between gates that hold after it, so its gates obey these laws in whatever order they were defined. -/

namespace Ketscript

theorem FloatComplex.conj_conj (z : FloatComplex) : Amplitude.conj (Amplitude.conj z) = z := by
  show FloatComplex.mk z.re (- -z.im) = z
  rw [Binary64.neg_neg]

/-! ### Gates and their inverses -/

namespace Store
variable {s : Store ℂ} {left right invLeft invRight : String} {a b u : Matrix ℂ}

/-- The inverses of two gates can be multiplied in the other order if the gates can, and come to the inverse. -/
theorem concat_adjoint (hleft : s.resolve left = .ok a) (hright : s.resolve right = .ok b)
    (hinvLeft : s.resolve invLeft = .ok a.adjoint) (hinvRight : s.resolve invRight = .ok b.adjoint)
    (hu : s.concat left right = .ok u) : s.concat invRight invLeft = .ok u.adjoint := by
  obtain ⟨a', hleft', b', hright', hinner, rfl⟩ := concat_eq_ok.mp hu
  cases hleft.symm.trans hleft'
  cases hright.symm.trans hright'
  exact concat_eq_ok.mpr ⟨_, hinvRight, _, hinvLeft, hinner.symm, Matrix.adjoint_mul hinner⟩

theorem tensor_adjoint (hleft : s.resolve left = .ok a) (hright : s.resolve right = .ok b)
    (hinvLeft : s.resolve invLeft = .ok a.adjoint) (hinvRight : s.resolve invRight = .ok b.adjoint)
    (ha : a.IsSquare) (hb : b.IsSquare) (hu : s.tensor left right = .ok u) :
    s.tensor invLeft invRight = .ok u.adjoint := by
  obtain ⟨a', hleft', b', hright', hsize, rfl⟩ := tensor_eq_ok.mp hu
  cases hleft.symm.trans hleft'
  cases hright.symm.trans hright'
  -- The adjoints have the columns of the gates as rows, so the size is that of the gates if they are square.
  have hsize : a.adjoint.rows * b.adjoint.rows ≤ maxGateDimension := by
    rw [Matrix.rows_adjoint, Matrix.rows_adjoint, ← ha, ← hb]
    exact hsize
  exact tensor_eq_ok.mpr ⟨_, hinvLeft, _, hinvRight, hsize, Matrix.adjoint_tensor a b⟩

end Store

/-! ### Definitions of a run -/

namespace Machine

section
variable {K R : Type} [RealScalar R] [Amplitude K R] [Add K] [Mul K] [Zero K] [One K] [BEq K]
variable {words : Nat → UInt64} {m : Machine K} {cs : List Call} {name left right gate : String}

theorem exists_concat (h : .concat name left right ∈ m.history words cs) :
    ∃ u, (m.calls words cs).store.concat left right = .ok u ∧ (m.calls words cs).store.resolve name = .ok u := by
  obtain ⟨_, u, hdefines, hu⟩ := (calls_steps words cs m).exists_defines h rfl
  cases hdefines with
  | concat hleft hright hinner => exact ⟨_, Store.concat_eq_ok.mpr ⟨_, hleft, _, hright, hinner, rfl⟩, hu⟩

theorem exists_tensor (h : .tensor name left right ∈ m.history words cs) :
    ∃ u, (m.calls words cs).store.tensor left right = .ok u ∧ (m.calls words cs).store.resolve name = .ok u := by
  obtain ⟨_, u, hdefines, hu⟩ := (calls_steps words cs m).exists_defines h rfl
  cases hdefines with
  | tensor hleft hright hsize => exact ⟨_, Store.tensor_eq_ok.mpr ⟨_, hleft, _, hright, hsize, rfl⟩, hu⟩

theorem exists_adjoint (h : .inverse name gate ∈ m.history words cs) :
    ∃ u, (m.calls words cs).store.resolve gate = .ok u ∧ (m.calls words cs).store.resolve name = .ok u.adjoint := by
  obtain ⟨_, u, hdefines, hu⟩ := (calls_steps words cs m).exists_defines h rfl
  cases hdefines with
  | inverse hgate => exact ⟨_, hgate, hu⟩

theorem resolve_inverse (h : .inverse name gate ∈ m.history words cs) {u : Matrix K}
    (hu : (m.calls words cs).store.resolve gate = .ok u) :
    (m.calls words cs).store.resolve name = .ok u.adjoint := by
  obtain ⟨v, hv, hname⟩ := exists_adjoint h
  cases hu.symm.trans hv
  exact hname

/-- An inverse of an inverse is the gate itself wherever conjugates are undone by conjugates. -/
theorem resolve_inverse_inverse (hconj : ∀ z : K, Amplitude.conj (Amplitude.conj z) = z) {inverse double : String}
    (hinverse : .inverse inverse gate ∈ m.history words cs) (hdouble : .inverse double inverse ∈ m.history words cs) :
    ∃ u, (m.calls words cs).store.resolve gate = .ok u ∧ (m.calls words cs).store.resolve double = .ok u := by
  obtain ⟨u, hgate, hu⟩ := exists_adjoint hinverse
  have hdouble := resolve_inverse hdouble hu
  rw [Matrix.adjoint_adjoint_of_conj hconj] at hdouble
  exact ⟨u, hgate, hdouble⟩

end

section
variable {words : Nat → UInt64} {cs : List Call} {left right invLeft invRight : String}

theorem concat_inverses {m : Machine ℂ}
    (hleft : .inverse invLeft left ∈ m.history words cs) (hright : .inverse invRight right ∈ m.history words cs)
    {u : Matrix ℂ} (hu : (m.calls words cs).store.concat left right = .ok u) :
    (m.calls words cs).store.concat invRight invLeft = .ok u.adjoint := by
  obtain ⟨a, hleft, hinvLeft⟩ := exists_adjoint hleft
  obtain ⟨b, hright, hinvRight⟩ := exists_adjoint hright
  exact Store.concat_adjoint hleft hright hinvLeft hinvRight hu

theorem tensor_inverses (hleft : .inverse invLeft left ∈ (fresh : Machine ℂ).history words cs)
    (hright : .inverse invRight right ∈ (fresh : Machine ℂ).history words cs)
    {u : Matrix ℂ} (hu : (fresh.calls words cs).store.tensor left right = .ok u) :
    (fresh.calls words cs).store.tensor invLeft invRight = .ok u.adjoint := by
  have hsound := sound_history (K := ℂ) words cs
  obtain ⟨a, hleft, hinvLeft⟩ := exists_adjoint hleft
  obtain ⟨b, hright, hinvRight⟩ := exists_adjoint hright
  exact Store.tensor_adjoint hleft hright hinvLeft hinvRight (hsound.resolve hleft).1 (hsound.resolve hright).1 hu

/-- Two inverses undo each other in binary64 arithmetic, in every bit and in every run. In exact arithmetic the adjoint
    turns a product around and keeps the order of a Kronecker product. So whenever gates have their inverses defined in
    a run, what can be built from the gates can be built from the inverses, and comes to the inverse of it. -/
theorem inverse_laws :
    (∀ u : Matrix FloatComplex, u.adjoint.adjoint = u) ∧
    (∀ (words : Nat → UInt64) (m : Machine FloatComplex) (cs : List Call) (gate inverse double : String),
      [.inverse inverse gate, .inverse double inverse] ⊆ m.history words cs →
      ∃ u, (m.calls words cs).store.resolve gate = .ok u ∧ (m.calls words cs).store.resolve double = .ok u) ∧
    (∀ a b : Matrix ℂ, a.cols = b.rows →
      ∃ p, a.mul? b = .ok p ∧ b.adjoint.mul? a.adjoint = .ok p.adjoint) ∧
    (∀ a b : Matrix ℂ, (a.tensor b).adjoint = a.adjoint.tensor b.adjoint) ∧
    ∀ (words : Nat → UInt64) (cs : List Call) (left right invLeft invRight : String),
      let past := (fresh : Machine ℂ).history words cs
      let s : Store ℂ := (fresh.calls words cs).store
      [.inverse invLeft left, .inverse invRight right] ⊆ past →
      (∀ u, s.concat left right = .ok u → s.concat invRight invLeft = .ok u.adjoint) ∧
      (∀ u, s.tensor left right = .ok u → s.tensor invLeft invRight = .ok u.adjoint) ∧
      (∀ product inverse other,
        [.concat product left right, .inverse inverse product, .concat other invRight invLeft] ⊆ past →
        ∃ u, s.resolve inverse = .ok u ∧ s.resolve other = .ok u) ∧
      ∀ product inverse other,
        [.tensor product left right, .inverse inverse product, .tensor other invLeft invRight] ⊆ past →
        ∃ u, s.resolve inverse = .ok u ∧ s.resolve other = .ok u := by
  simp only [List.cons_subset, List.nil_subset, and_true]
  refine ⟨Matrix.adjoint_adjoint_of_conj FloatComplex.conj_conj, ?_, ?_, Matrix.adjoint_tensor, ?_⟩
  · rintro words m cs gate inverse double ⟨hinverse, hdouble⟩
    exact resolve_inverse_inverse FloatComplex.conj_conj hinverse hdouble
  · intro a b hinner
    exact ⟨a.mul b, if_pos hinner, (if_pos hinner.symm).trans (congrArg Except.ok (Matrix.adjoint_mul hinner).symm)⟩
  · rintro words cs left right invLeft invRight ⟨hleft, hright⟩
    refine ⟨fun u => concat_inverses hleft hright, fun u => tensor_inverses hleft hright, ?_, ?_⟩
    · rintro product inverse other ⟨hproduct, hinverse, hother⟩
      obtain ⟨u, hu, hproduct⟩ := exists_concat hproduct
      obtain ⟨w, hw, hother⟩ := exists_concat hother
      cases (concat_inverses hleft hright hu).symm.trans hw
      exact ⟨u.adjoint, resolve_inverse hinverse hproduct, hother⟩
    · rintro product inverse other ⟨hproduct, hinverse, hother⟩
      obtain ⟨u, hu, hproduct⟩ := exists_tensor hproduct
      obtain ⟨w, hw, hother⟩ := exists_tensor hother
      cases (tensor_inverses hleft hright hu).symm.trans hw
      exact ⟨u.adjoint, resolve_inverse hinverse hproduct, hother⟩

theorem inverse_laws_phase :
    let words : Nat → UInt64 := fun _ => 0
    let double : Machine FloatComplex := fresh.calls words [.run (.inverse "V" "R0.5"), .run (.inverse "W" "V")]
    let definitions : List Instruction := [.inverse "A" "H", .inverse "B" "R0.5",
      .concat "P" "H" "R0.5", .inverse "V" "P", .concat "W" "B" "A",
      .tensor "Q" "H" "R0.5", .inverse "X" "Q", .tensor "Y" "A" "B"]
    let s : Store ℂ := (fresh.calls words (definitions.map .run)).store
    let a : Matrix ℂ := ⟨1, 2, #[1, Complex.I], Nat.one_pos, Nat.two_pos, rfl⟩
    let b : Matrix ℂ := ⟨2, 1, #[2, 3], Nat.two_pos, Nat.one_pos, rfl⟩
    (∃ u, double.store.resolve "R0.5" = .ok u ∧ double.store.resolve "W" = .ok u) ∧
      (∃ p, a.mul? b = .ok p ∧ b.adjoint.mul? a.adjoint = .ok p.adjoint) ∧
      (∃ u, s.concat "H" "R0.5" = .ok u ∧ s.concat "B" "A" = .ok u.adjoint) ∧
      (∃ u, s.tensor "H" "R0.5" = .ok u ∧ s.tensor "A" "B" = .ok u.adjoint) ∧
      (∃ u, s.resolve "V" = .ok u ∧ s.resolve "W" = .ok u) ∧ ∃ u, s.resolve "X" = .ok u ∧ s.resolve "Y" = .ok u := by
  intro words double definitions s a b
  have hpast : (fresh : Machine ℂ).history words (definitions.map .run) = definitions := by decide +kernel
  have hpair : (fresh : Machine FloatComplex).history words [.run (.inverse "V" "R0.5"), .run (.inverse "W" "V")] =
      [.inverse "V" "R0.5", .inverse "W" "V"] := by decide +kernel
  obtain ⟨-, hdouble, hmul, -, hrun⟩ := inverse_laws
  obtain ⟨hconcat, htensor, hconcats, htensors⟩ := hrun words (definitions.map .run) "H" "R0.5" "A" "B"
    (by rw [hpast]; decide)
  have hproduct : .concat "P" "H" "R0.5" ∈ (fresh : Machine ℂ).history words (definitions.map .run) := by
    rw [hpast]
    decide
  have hkronecker : .tensor "Q" "H" "R0.5" ∈ (fresh : Machine ℂ).history words (definitions.map .run) := by
    rw [hpast]
    decide
  obtain ⟨u, hu, -⟩ := exists_concat hproduct
  obtain ⟨w, hw, -⟩ := exists_tensor hkronecker
  refine ⟨hdouble words fresh _ "R0.5" "V" "W" (by rw [hpair]; decide), hmul a b rfl, ⟨u, hu, hconcat u hu⟩,
    ⟨w, hw, htensor w hw⟩, hconcats "P" "V" "W" (by rw [hpast]; decide), htensors "Q" "X" "Y" (by rw [hpast]; decide)⟩

end

end Machine
end Ketscript
