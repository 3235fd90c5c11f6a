import Ketscript.Machine.Store
import Ketscript.Proofs.Linear.Unitary
import Mathlib.Tactic.IntervalCases

/-! The builtin gates. Their rows are of one length, so that each has a matrix, unless it is an identity of a dimension
    that no gate has. It is a square matrix of a dimension up to the maximum, whatever its entries are computed with; in
    exact arithmetic each is unitary, and a phase gate turns by exactly its angle. -/

namespace Ketscript

/-- Rows as many and as long as a dimension are those of a square matrix. -/
theorem Matrix.ofRows?_eq_ofFn {K : Type} [Zero K] {rows : Array (Array K)} {n : Nat} {f : Nat → Nat → K} (hn : 0 < n)
    (hsize : rows.size = n) (h : ∀ r < n, (rows.getD r #[]).size = n ∧ ∀ c < n, (rows.getD r #[]).getD c 0 = f r c) :
    ofRows? rows = .ok (ofFn n n hn hn f) := by
  subst hsize
  have hcols : (rows.getD 0 #[]).size = rows.size := (h 0 hn).1
  have hragged : ¬(rows.any fun row => row.size != (rows.getD 0 #[]).size) = true := by
    intro hany
    obtain ⟨r, hr, hne⟩ := Array.any_eq_true.mp hany
    have hrow := (h r hr).1
    rw [Array.getD_eq_getD_getElem?, Array.getElem?_eq_getElem hr, Option.getD_some] at hrow
    exact bne_iff_ne.mp hne (hrow.trans hcols.symm)
  simp only [ofRows?]
  rw [dif_pos (hcols.symm ▸ hn), if_neg hragged, dif_pos hn]
  refine congrArg Except.ok (ext_entry rfl hcols fun r hr c hc => ?_)
  have hc : c < rows.size := hcols ▸ hc
  exact (entry_ofFn hn _ _ hr (hcols.symm ▸ hc)).trans (((h r hr).2 c hc).trans (entry_ofFn hn hn f hr hc).symm)

namespace Builtin
open Finset

/-! ### Matrices -/

section
variable {K R : Type} [RealScalar R] [Amplitude K R]

def hadamardMatrix : Matrix K :=
  Matrix.ofFn 2 2 Nat.two_pos Nat.two_pos fun r c =>
    Amplitude.ofReal (if r = 1 ∧ c = 1 then -inverseRootTwo else inverseRootTwo)

/-- The place of the entry that is one in a row of `CNOT`. -/
def cnotColumn (r : Nat) : Nat := if r = 2 then 3 else if r = 3 then 2 else r

def cnotMatrix : Matrix K :=
  Matrix.ofFn 4 4 (Nat.succ_pos 3) (Nat.succ_pos 3) fun r c =>
    Amplitude.ofReal (if c = cnotColumn r then RealScalar.ofNat 1 else 0)

def phaseMatrix (angle : R) : Matrix K :=
  Matrix.ofFn 2 2 Nat.two_pos Nat.two_pos fun r c =>
    if r = c then
      (if r = 0 then Amplitude.ofReal (RealScalar.ofNat 1) else Amplitude.ofPolar (RealScalar.ofNat 1) angle)
    else Amplitude.ofReal 0

variable [Zero K] [One K] (name : String)

theorem matrix?_hadamard : hadamard.matrix? name = .ok (hadamardMatrix : Matrix K) := by
  have h : Matrix.ofRealRows? (hadamardRows : Array (Array R)) = .ok (hadamardMatrix : Matrix K) := by
    refine Matrix.ofRows?_eq_ofFn Nat.two_pos (by simp [hadamardRows]) fun r hr => ?_
    interval_cases r <;> refine ⟨by simp [hadamardRows], fun c hc => ?_⟩ <;> interval_cases c <;> simp [hadamardRows]
  rw [matrix?, h]
  rfl

theorem matrix?_cnot : cnot.matrix? name = .ok (cnotMatrix : Matrix K) := by
  have h : Matrix.ofRealRows? (cnotRows : Array (Array R)) = .ok (cnotMatrix : Matrix K) := by
    refine Matrix.ofRows?_eq_ofFn (Nat.succ_pos 3) (by simp [cnotRows]) fun r hr => ?_
    interval_cases r <;> refine ⟨by simp [cnotRows], fun c hc => ?_⟩ <;> interval_cases c <;>
      simp [cnotRows, cnotColumn]
  rw [matrix?, h]
  rfl

theorem matrix?_phase (value places : Nat) : (phase value places).matrix? name =
    .ok (phaseMatrix (RealScalar.pi * RealScalar.ofDecimal value places) : Matrix K) := by
  have h (angle : R) : Matrix.ofRows? (phaseRows angle) = .ok (phaseMatrix angle : Matrix K) := by
    refine Matrix.ofRows?_eq_ofFn Nat.two_pos (by simp [phaseRows]) fun r hr => ?_
    interval_cases r <;> refine ⟨by simp [phaseRows], fun c hc => ?_⟩ <;> interval_cases c <;> simp [phaseRows]
  rw [matrix?, h]
  rfl

theorem matrix?_identity (n : Nat) : ((identity n).matrix? name : Except InstructionError (Matrix K)) =
    if maxGateDimension < n then .error (.gateTooLarge n)
    else if h : 0 < n then .ok (Matrix.identity n h)
    else .error (.noGate name) := by
  rw [matrix?, Matrix.identity?]
  by_cases h : 0 < n <;> simp [h]

variable {name}

/-- The matrices that builtin gates have. -/
theorem matrix?_cases {b : Builtin} {m : Matrix K} (h : b.matrix? name = .ok m) :
    (b = hadamard ∧ m = hadamardMatrix) ∨ (b = cnot ∧ m = cnotMatrix) ∨
      (∃ n hn, b = identity n ∧ n ≤ maxGateDimension ∧ m = .identity n hn) ∨
        ∃ value places, b = phase value places ∧
          m = phaseMatrix (RealScalar.pi * RealScalar.ofDecimal value places) := by
  cases b with
  | hadamard =>
    cases (matrix?_hadamard name).symm.trans h
    exact .inl ⟨rfl, rfl⟩
  | cnot =>
    cases (matrix?_cnot name).symm.trans h
    exact .inr (.inl ⟨rfl, rfl⟩)
  | identity n =>
    rw [matrix?_identity] at h
    split at h
    · cases h
    · rename_i hmax
      split at h
      · rename_i hpos
        cases h
        exact .inr (.inr (.inl ⟨n, hpos, rfl, Nat.not_lt.mp hmax, rfl⟩))
      · cases h
  | phase value places =>
    cases (matrix?_phase name value places).symm.trans h
    exact .inr (.inr (.inr ⟨value, places, rfl, rfl⟩))

/-- A builtin gate is square, and not too large. -/
theorem matrix?_square {b : Builtin} {m : Matrix K} (h : b.matrix? name = .ok m) :
    m.IsSquare ∧ m.rows ≤ maxGateDimension := by
  rcases matrix?_cases h with ⟨-, rfl⟩ | ⟨-, rfl⟩ | ⟨n, hn, -, hmax, rfl⟩ | ⟨value, places, -, rfl⟩
  · exact ⟨rfl, (by decide : 2 ≤ maxGateDimension)⟩
  · exact ⟨rfl, (by decide : 4 ≤ maxGateDimension)⟩
  · exact ⟨rfl, hmax⟩
  · exact ⟨rfl, (by decide : 2 ≤ maxGateDimension)⟩

end

/-! ### Exact entries -/

/-- The modulus of the entries of `H`. -/
noncomputable def halfRoot : ℂ := Complex.ofReal (Real.sqrt (RealScalar.ofDecimal 5 1))

theorem conj_halfRoot : starRingEnd ℂ halfRoot = halfRoot := Complex.conj_ofReal _

theorem halfRoot_mul_self : halfRoot * halfRoot = 1 / 2 := by
  have hhalf : (RealScalar.ofDecimal 5 1 : ℝ) = 1 / 2 := by
    show ((5 : ℕ) : ℝ) / 10 ^ 1 = 1 / 2
    norm_num
  rw [halfRoot, hhalf, ← Complex.ofReal_mul, Real.mul_self_sqrt (by norm_num)]
  norm_num

theorem entry_hadamardMatrix {r c : Nat} (hr : r < 2) (hc : c < 2) :
    (hadamardMatrix : Matrix ℂ).entry r c = if r = 1 ∧ c = 1 then -halfRoot else halfRoot := by
  rw [hadamardMatrix, Matrix.entry_ofFn _ _ _ hr hc, Amplitude.ofReal_eq, halfRoot, ← Complex.ofReal_neg,
    ← apply_ite Complex.ofReal]
  rfl

theorem entry_cnotMatrix {r c : Nat} (hr : r < 4) (hc : c < 4) :
    (cnotMatrix : Matrix ℂ).entry r c = if c = cnotColumn r then 1 else 0 := by
  rw [cnotMatrix, Matrix.entry_ofFn _ _ _ hr hc, Amplitude.ofReal_eq, RealScalar.ofNat_eq_cast]
  split <;> simp

theorem entry_phaseMatrix (angle : ℝ) {r c : Nat} (hr : r < 2) (hc : c < 2) :
    (phaseMatrix angle : Matrix ℂ).entry r c =
      if r = c then (if r = 0 then 1 else Complex.exp (angle * Complex.I)) else 0 := by
  rw [phaseMatrix, Matrix.entry_ofFn _ _ _ hr hc, Amplitude.ofPolar_one, Amplitude.ofReal_eq, Amplitude.ofReal_eq,
    RealScalar.ofNat_eq_cast]
  simp

/-! ### Unitarity -/

theorem hadamardMatrix_isUnitary : (hadamardMatrix : Matrix ℂ).IsUnitary := by
  refine .of_entries (n := 2) rfl rfl (fun r hr c hc => ?_) fun r hr c hc => ?_ <;>
    interval_cases r <;> interval_cases c <;>
      norm_num [sum_range_succ, entry_hadamardMatrix, conj_halfRoot, halfRoot_mul_self]

theorem cnotMatrix_isUnitary : (cnotMatrix : Matrix ℂ).IsUnitary := by
  refine .of_entries (n := 4) rfl rfl (fun r hr c hc => ?_) fun r hr c hc => ?_ <;>
    interval_cases r <;> interval_cases c <;> simp [sum_range_succ, entry_cnotMatrix, cnotColumn]

theorem phaseMatrix_isUnitary (angle : ℝ) : (phaseMatrix angle : Matrix ℂ).IsUnitary := by
  have hphase : Complex.exp (angle * Complex.I) * starRingEnd ℂ (Complex.exp (angle * Complex.I)) = 1 := by
    rw [Complex.mul_conj, Complex.normSq_eq_norm_sq, Complex.norm_exp_ofReal_mul_I]
    norm_num
  have hphase' := (mul_comm _ _).trans hphase
  refine .of_entries (n := 2) rfl rfl (fun r hr c hc => ?_) fun r hr c hc => ?_ <;>
    interval_cases r <;> interval_cases c <;>
      simp only [sum_range_succ, range_zero, sum_empty, entry_phaseMatrix, Nat.two_pos, Nat.one_lt_two] <;>
      simp [hphase, hphase']

/-- Every builtin gate is unitary. -/
theorem matrix?_isUnitary {b : Builtin} {name : String} {m : Matrix ℂ} (h : b.matrix? name = .ok m) :
    m.IsUnitary := by
  rcases matrix?_cases h with ⟨-, rfl⟩ | ⟨-, rfl⟩ | ⟨n, hn, -, -, rfl⟩ | ⟨value, places, -, rfl⟩
  · exact hadamardMatrix_isUnitary
  · exact cnotMatrix_isUnitary
  · exact .identity hn
  · exact phaseMatrix_isUnitary _

end Builtin

/-! ### Gates of a store -/

namespace Store
variable {K R : Type} [RealScalar R] [Amplitude K R] [Zero K] [One K] (s : Store K)

theorem resolve_of_ofName? {name : String} {b : Builtin} (h : Builtin.ofName? name = some b) :
    s.resolve name = b.matrix? name := by
  unfold resolve
  rw [h]

theorem resolve_hadamard : s.resolve "H" = .ok Builtin.hadamardMatrix :=
  (s.resolve_of_ofName? (by decide)).trans (Builtin.matrix?_hadamard "H")

theorem resolve_cnot : s.resolve "CNOT" = .ok Builtin.cnotMatrix :=
  (s.resolve_of_ofName? (by decide)).trans (Builtin.matrix?_cnot "CNOT")

end Store
end Ketscript
