import Ketscript.Proofs.Binary64.Circle
import Ketscript.Proofs.Binary64.Decimal
import Ketscript.Proofs.Definitions
import Ketscript.Proofs.ZeroSkipping

/-! The builtin gates in binary64 arithmetic. The matrix of a gate passes the check for unitarity: that of `H` by
    computation, and the others because they permute the basis states up to phases, that is up to numbers on the unit
    circle. The exception are phase gates whose angle is so large that it overflows. -/

namespace Ketscript
open Binary64

/-! ### Numbers near to each other -/

namespace Binary64

theorem form_tolerance : form (RealScalar.tolerance : Float) = .finite .positive 4835703278458517 (-82) (by decide) :=
  rfl

theorem form_pi : form (RealScalar.pi : Float) = .finite .positive 7074237752028440 (-51) (by decide) := rfl

variable {x y : Float} {r u : ℝ}

/-- The sum of two products, added to nothing. -/
theorem Within.zero_add_add (hx : Within (2 ^ (-47 : ℤ)) x r) (hy : Within (2 ^ (-47 : ℤ)) y u) (hr : |r| ≤ 4)
    (hu : |u| ≤ 4) : Within (2 ^ (-44 : ℤ)) (0.0 + (x + y)) (r + u) := by
  have hle : |r + u| ≤ 8 := (abs_add_le r u).trans (by linarith)
  have hzero : Within 0 0.0 0 := by simpa [toReal_zero] using within_self (x := 0.0) rfl
  have hsum := hzero.add (hx.add hy (by norm_num; linarith)) (by rw [zero_add]; norm_num; linarith)
  rw [zero_add, zero_add] at hsum
  refine hsum.mono ?_
  norm_num

end Binary64

/-- Numbers are near to each other if their parts deviate by less than the tolerance. -/
theorem Matrix.near_of_within {z w : FloatComplex} {ε r i : ℝ} (hw : w.IsFinite) (hr : toReal w.re = r)
    (hi : toReal w.im = i) (hε : ε ≤ 2 ^ (-40 : ℤ)) (hre : Within ε z.re r) (him : Within ε z.im i) :
    near RealScalar.tolerance z w = true := by
  subst hr hi
  have hpart {x y : Float} (h : Within ε x (toReal y)) (hy : y.isFinite) :
      (x - y).abs ≤ (RealScalar.tolerance : Float) := by
    have hlimit : (2 : ℝ) ^ (-47 : ℤ) + (ε + 0) ≤ 2 ^ (-39 : ℤ) :=
      (add_le_add le_rfl (add_le_add hε le_rfl)).trans (by norm_num)
    have hsub := h.sub (within_self hy) (by
      rw [sub_self, abs_zero]
      norm_num at hε ⊢
      linarith)
    have hdeviation := hsub.deviation.trans hlimit
    rw [sub_self, sub_zero] at hdeviation
    refine abs_le_of_toReal hsub.finite form_tolerance (hdeviation.trans ?_)
    rw [toReal, form_tolerance, value_finite, applySign]
    norm_num
  exact Bool.and_eq_true_iff.mpr ⟨decide_eq_true (hpart hre hw.1), decide_eq_true (hpart him hw.2)⟩

/-! ### Phases -/

namespace FloatComplex
variable {v w : FloatComplex}

theorem toReal_re_zero : toReal (0 : FloatComplex).re = 0 := toReal_zero

theorem toReal_im_zero : toReal (0 : FloatComplex).im = 0 := toReal_zero

/-- Both parts are finite and at most two. -/
structure IsSmall (w : FloatComplex) : Prop where
  finite : w.IsFinite
  re : |toReal w.re| ≤ 2
  im : |toReal w.im| ≤ 2

theorem isSmall_zero : IsSmall 0 := by
  refine ⟨by decide, ?_, ?_⟩
  · rw [toReal_re_zero, abs_zero]
    exact zero_le_two
  · rw [toReal_im_zero, abs_zero]
    exact zero_le_two

/-- The first term of a sum in a product with an adjoint. -/
theorem within_zero_add_mul_conj (hw : w.IsSmall) (hv : v.IsSmall) :
    Within (2 ^ (-44 : ℤ)) (0 + w * Amplitude.conj v).re (toReal w.re * toReal v.re + toReal w.im * toReal v.im) ∧
      Within (2 ^ (-44 : ℤ)) (0 + w * Amplitude.conj v).im (toReal w.im * toReal v.re - toReal w.re * toReal v.im) := by
  have hmul {x y : Float} (hx : x.isFinite) (hy : y.isFinite) (ha : |toReal x| ≤ 2) (hb : |toReal y| ≤ 2) :
      Within (2 ^ (-47 : ℤ)) (x * y) (toReal x * toReal y) ∧ |toReal x * toReal y| ≤ 4 := by
    have hle : |toReal x * toReal y| ≤ 4 := by
      rw [abs_mul]
      nlinarith [abs_nonneg (toReal x), abs_nonneg (toReal y)]
    exact ⟨within_mul hx hy (hle.trans (by norm_num)), hle⟩
  have hneg : |toReal (-v.im)| ≤ 2 := by
    rw [toReal_neg, abs_neg]
    exact hv.im
  constructor
  · obtain ⟨hre, hrele⟩ := hmul hw.finite.1 hv.finite.1 hw.re hv.re
    obtain ⟨him, himle⟩ := hmul hw.finite.2 (isFinite_neg hv.finite.2) hw.im hneg
    have h := hre.zero_add_add him.neg hrele (by rwa [abs_neg])
    rw [← Binary64.sub_eq_add_neg, toReal_neg, mul_neg, neg_neg] at h
    exact h
  · obtain ⟨hre, hrele⟩ := hmul hw.finite.1 (isFinite_neg hv.finite.2) hw.re hneg
    obtain ⟨him, himle⟩ := hmul hw.finite.2 hv.finite.1 hw.im hv.re
    have h := hre.zero_add_add him hrele himle
    rw [toReal_neg, mul_neg, neg_add_eq_sub] at h
    exact h

/-- A number on the unit circle, but for rounding. -/
structure IsPhase (w : FloatComplex) : Prop where
  finite : w.IsFinite
  circle : |toReal w.re ^ 2 + toReal w.im ^ 2 - 1| ≤ 2 ^ (-42 : ℤ)

namespace IsPhase

theorem isSmall (h : w.IsPhase) : w.IsSmall := by
  obtain ⟨hre, him⟩ := FixedPoint.abs_le_two_of_sq_add_sq (h.circle.trans (zpow_le_one_of_nonpos₀ one_le_two (by decide)))
  exact ⟨h.finite, hre, him⟩

theorem ne_zero (h : w.IsPhase) : (w == 0) = false := by
  rw [← Bool.not_eq_true]
  intro hzero
  obtain ⟨hre, him⟩ := Bool.and_eq_true_iff.mp hzero
  have hcircle := h.circle
  rw [(toReal_eq_zero_iff h.finite.1).mpr hre, (toReal_eq_zero_iff h.finite.2).mpr him] at hcircle
  norm_num at hcircle

theorem one : IsPhase 1 := by
  have hre : toReal (1 : FloatComplex).re = 1 := toReal_one
  have him : toReal (1 : FloatComplex).im = 0 := toReal_zero
  refine ⟨by decide, ?_⟩
  rw [hre, him]
  norm_num

end IsPhase

theorem ofPolar_eq (r angle : Float) : (Amplitude.ofPolar r angle : FloatComplex) = ⟨r * cos angle, r * sin angle⟩ :=
  rfl

theorem isPhase_ofPolar {angle : Float} (h : angle.isFinite) :
    (Amplitude.ofPolar (RealScalar.ofNat 1) angle : FloatComplex).IsPhase := by
  have hone : (RealScalar.ofNat 1 : Float) = 1.0 := by decide +kernel
  obtain ⟨hcos, hsin, hcircle⟩ := abs_cos_sq_add_sin_sq_sub_one_le h
  rw [ofPolar_eq, hone, Binary64.one_mul, Binary64.one_mul]
  exact ⟨⟨hcos, hsin⟩, hcircle⟩

end FloatComplex

/-! ### Monomial matrices -/

namespace Matrix

/-- One entry in each row, in a column of its own, and zeros elsewhere. -/
structure IsMonomial {K : Type} [Zero K] (m : Matrix K) (column : Nat → Nat) : Prop where
  square : m.IsSquare
  lt : ∀ r < m.rows, column r < m.cols
  injective : ∀ r < m.rows, ∀ c < m.rows, column r = column c → r = c
  zero : ∀ r < m.rows, ∀ k < m.cols, k ≠ column r → m.entry r k = 0

/-- A loop that does something at one index only. -/
theorem fold_single {α : Type} {f : α → α} {place n : Nat} (hplace : place < n) (init : α) :
    n.fold (fun k _ acc => if k = place then f acc else acc) init = f init := by
  have hbefore (n : Nat) (hn : n ≤ place) : n.fold (fun k _ acc => if k = place then f acc else acc) init = init := by
    induction n with
    | zero => rfl
    | succ n ih => rw [Nat.fold_succ, ih (Nat.le_of_succ_le hn), if_neg (Nat.ne_of_lt hn)]
  induction n with
  | zero => cases hplace
  | succ n ih =>
    rw [Nat.fold_succ]
    rcases Nat.lt_succ_iff_lt_or_eq.mp hplace with hlt | rfl
    · rw [ih hlt, if_neg (Nat.ne_of_gt hlt)]
    · rw [hbefore _ (Nat.le_refl _), if_pos rfl]

variable {m : Matrix FloatComplex} {column : Nat → Nat}

theorem IsMonomial.entry_mul_adjoint (h : m.IsMonomial column) {r c : Nat} (hr : r < m.rows) (hc : c < m.rows)
    (hne : (m.entry r (column r) == 0) = false) :
    (m.mul m.adjoint).entry r c =
      0 + m.entry r (column r) * Amplitude.conj (if r = c then m.entry r (column r) else 0) := by
  have hloop : (fun k (_ : k < m.cols) (sum : FloatComplex) =>
      if m.entry r k == 0 then sum else sum + m.entry r k * m.adjoint.entry k c) =
      fun k _ sum => if k = column r then
        sum + m.entry r (column r) * Amplitude.conj (if r = c then m.entry r (column r) else 0) else sum := by
    funext k hk sum
    by_cases hcolumn : k = column r
    · subst hcolumn
      have hright : m.entry c (column r) = if r = c then m.entry r (column r) else 0 := by
        split
        · rename_i hsame
          rw [hsame]
        · rename_i hother
          exact h.zero c hc _ hk fun hsame => hother (h.injective r hr c hc hsame)
      rw [hne, if_neg Bool.false_ne_true, if_pos rfl, entry_adjoint_eq_conj m hk hc, hright]
    · rw [h.zero r hr k hk hcolumn, if_neg hcolumn]
      rfl
  rw [entry_mul_eq_fold rfl hr hc, hloop, fold_single (h.lt r hr)]

/-- A gate: its entries are numbers, and it passes the check for unitarity. -/
structure IsGate (m : Matrix FloatComplex) : Prop where
  finite : ∀ r < m.rows, ∀ c < m.cols, (m.entry r c).IsFinite
  unitary : m.checkUnitary RealScalar.tolerance = .ok ()

/-- A matrix that permutes the basis states up to phases is a gate. -/
theorem IsMonomial.isGate (h : m.IsMonomial column) (hphase : ∀ r < m.rows, (m.entry r (column r)).IsPhase) :
    m.IsGate := by
  refine ⟨fun r hr c hc => ?_, checkUnitary_of_near h.square fun r hr c hc => ?_⟩
  · by_cases hcolumn : c = column r
    · rw [hcolumn]
      exact (hphase r hr).finite
    · rw [h.zero r hr c hc hcolumn]
      decide
  · have hw := hphase r hr
    rw [h.entry_mul_adjoint hr hc hw.ne_zero]
    generalize m.entry r (column r) = w at hw
    split
    · obtain ⟨hre, him⟩ := FloatComplex.within_zero_add_mul_conj hw.isSmall hw.isSmall
      have hcircle := hw.circle
      rw [pow_two, pow_two] at hcircle
      rw [mul_comm, sub_self] at him
      refine near_of_within (by decide) toReal_one toReal_zero ?_ (hre.trans hcircle) (him.mono ?_) <;> norm_num
    · obtain ⟨hre, him⟩ := FloatComplex.within_zero_add_mul_conj hw.isSmall FloatComplex.isSmall_zero
      rw [FloatComplex.toReal_re_zero, FloatComplex.toReal_im_zero, mul_zero, mul_zero] at hre him
      rw [add_zero] at hre
      rw [sub_zero] at him
      refine near_of_within (by decide) toReal_zero toReal_zero ?_ hre him
      norm_num

end Matrix

/-! ### Builtin gates -/

namespace Builtin

theorem isGate_hadamard : (hadamardMatrix : Matrix FloatComplex).IsGate := by
  refine ⟨by decide +kernel, if_pos ?_⟩
  decide +kernel

theorem ofReal_one : (Amplitude.ofReal (RealScalar.ofNat 1 : Float) : FloatComplex) = 1 := by decide +kernel

theorem isGate_cnot : (cnotMatrix : Matrix FloatComplex).IsGate := by
  have hentry {r c : Nat} (hr : r < 4) (hc : c < 4) : (cnotMatrix : Matrix FloatComplex).entry r c =
      if c = cnotColumn r then 1 else 0 := by
    rw [cnotMatrix, Matrix.entry_ofFn _ _ _ hr hc, apply_ite Amplitude.ofReal, ofReal_one]
    rfl
  have hlt : ∀ r < 4, cnotColumn r < 4 := by decide
  have hmonomial : (cnotMatrix : Matrix FloatComplex).IsMonomial cnotColumn :=
    ⟨rfl, hlt, by decide, fun r hr k hk hne => by rw [hentry hr hk, if_neg hne]⟩
  refine hmonomial.isGate fun r hr => ?_
  rw [hentry hr (hlt r hr), if_pos rfl]
  exact .one

theorem isGate_identity {n : Nat} (h : 0 < n) : (Matrix.identity n h : Matrix FloatComplex).IsGate := by
  have hmonomial : (Matrix.identity n h : Matrix FloatComplex).IsMonomial fun r => r :=
    ⟨rfl, fun r hr => hr, fun r _ c _ hsame => hsame,
      fun r hr k hk hne => by rw [Matrix.entry_identity h hr hk, if_neg (Ne.symm hne)]⟩
  refine hmonomial.isGate fun r hr => ?_
  rw [Matrix.entry_identity h hr hr, if_pos rfl]
  exact .one

theorem isGate_phase {angle : Float} (h : angle.isFinite) : (phaseMatrix angle : Matrix FloatComplex).IsGate := by
  have hentry {r c : Nat} (hr : r < 2) (hc : c < 2) : (phaseMatrix angle : Matrix FloatComplex).entry r c =
      if r = c then (if r = 0 then 1 else Amplitude.ofPolar (RealScalar.ofNat 1) angle) else 0 := by
    rw [phaseMatrix, Matrix.entry_ofFn _ _ _ hr hc, ofReal_one]
    rfl
  have hmonomial : (phaseMatrix angle : Matrix FloatComplex).IsMonomial fun r => r :=
    ⟨rfl, fun r hr => hr, fun r _ c _ hsame => hsame, fun r hr k hk hne => by rw [hentry hr hk, if_neg (Ne.symm hne)]⟩
  refine hmonomial.isGate fun r hr => ?_
  rw [hentry hr hr, if_pos rfl]
  split
  · exact .one
  · exact FloatComplex.isPhase_ofPolar h

theorem phaseMatrix_of_not_finite {angle : Float} (h : ¬angle.isFinite) :
    ¬((phaseMatrix angle : Matrix FloatComplex).entry 1 1).IsFinite ∧
      (phaseMatrix angle : Matrix FloatComplex).checkUnitary RealScalar.tolerance =
        .error (.notUnitary RealScalar.tolerance) := by
  -- All these angles have one matrix, that at the angle that is not a number.
  have hnan : ¬(0.0 / 0.0 : Float).isFinite := by decide
  obtain ⟨hcos, hsin⟩ := cos_sin_of_not_finite h
  obtain ⟨hcosnan, hsinnan⟩ := cos_sin_of_not_finite hnan
  have hpolar : (Amplitude.ofPolar (RealScalar.ofNat 1) angle : FloatComplex) =
      Amplitude.ofPolar (RealScalar.ofNat 1) (0.0 / 0.0 : Float) := by
    rw [FloatComplex.ofPolar_eq, FloatComplex.ofPolar_eq, hcos, hsin, hcosnan, hsinnan]
  have hmatrix : phaseMatrix angle = (phaseMatrix (0.0 / 0.0 : Float) : Matrix FloatComplex) := by
    rw [phaseMatrix, phaseMatrix, hpolar]
  have hcheck : ¬(phaseMatrix (0.0 / 0.0 : Float) : Matrix FloatComplex).isUnitary RealScalar.tolerance := by
    decide +kernel
  rw [hmatrix, Matrix.checkUnitary, if_neg hcheck]
  exact ⟨by decide +kernel, rfl⟩

/-! ### Angles -/

/-- The angle of a phase gate, in radians, as it is computed. -/
def radians (turns places : Nat) : Float := RealScalar.pi * RealScalar.ofDecimal turns places

/-- The angle of a phase gate does not overflow. -/
def InRange : Builtin → Prop
  | phase turns places => (radians turns places).isFinite
  | _ => True

theorem toReal_pi : 3 ≤ toReal (RealScalar.pi : Float) ∧ toReal (RealScalar.pi : Float) < 4 := by
  rw [toReal, form_pi, value_finite, applySign]
  norm_num

section Range
variable {turns places : Nat}

theorem radians_isFinite (h : turns < 10 ^ (307 + places)) : (radians turns places).isFinite := by
  have hturns : |(turns : ℝ) / 10 ^ places| ≤ 2 ^ (1020 : ℤ) := by
    rw [abs_of_nonneg (by positivity), div_le_iff₀ (by positivity)]
    calc (turns : ℝ) ≤ 10 ^ (307 + places) := by exact_mod_cast h.le
      _ = 10 ^ 307 * 10 ^ places := pow_add _ _ _
      _ ≤ 2 ^ (1020 : ℤ) * 10 ^ places := by
        gcongr
        exact_mod_cast (by decide +kernel : 10 ^ 307 ≤ 2 ^ 1020)
  have hread : Approximates (form (RealScalar.ofDecimal turns places : Float)) (turns / 10 ^ places) :=
    approximates_ofDecimal turns places
  have hfinite := hread.finite (hturns.trans_lt (zpow_lt_zpow_right₀ one_lt_two (by decide)))
  have hbound : |toReal (RealScalar.ofDecimal turns places : Float)| ≤ 2 ^ (1021 : ℤ) :=
    hread.abs_le hfinite (by decide) hturns
  refine (approximates_mul rfl hfinite).finite ?_
  rw [abs_mul, abs_of_nonneg (le_trans (by norm_num) toReal_pi.1)]
  calc toReal (RealScalar.pi : Float) * |toReal (RealScalar.ofDecimal turns places : Float)|
      ≤ toReal (RealScalar.pi : Float) * 2 ^ (1021 : ℤ) := by
        gcongr
        exact le_trans (by norm_num) toReal_pi.1
    _ < 2 ^ (2 : ℤ) * 2 ^ (1021 : ℤ) := by
        gcongr
        exact toReal_pi.2.trans_eq (by norm_num)
    _ = 2 ^ (1023 : ℤ) := (zpow_add₀ two_ne_zero _ _).symm

theorem not_radians_isFinite (h : 10 ^ (308 + places) ≤ turns) : ¬(radians turns places).isFinite := by
  intro hfinite
  have hread : Approximates (form (RealScalar.ofDecimal turns places : Float)) (turns / 10 ^ places) :=
    approximates_ofDecimal turns places
  have hfiniteturns := isFinite_of_mul hfinite
  have hone : (1 : ℝ) ≤ 2 ^ (1023 : ℤ) := one_le_zpow₀ one_le_two (by decide)
  have hlt : |toReal (radians turns places)| < 2 ^ (1023 : ℤ) * 2 :=
    (abs_toReal_lt _).trans_eq (zpow_add_one₀ two_ne_zero 1023)
  have hturns : (2 : ℝ) ^ (1023 : ℤ) ≤ |(turns : ℝ) / 10 ^ places| := by
    rw [abs_of_nonneg (by positivity), le_div_iff₀ (by positivity)]
    calc (2 : ℝ) ^ (1023 : ℤ) * 10 ^ places ≤ 10 ^ 308 * 10 ^ places := by
          gcongr
          exact_mod_cast (by decide +kernel : 2 ^ 1023 ≤ 10 ^ 308)
      _ = 10 ^ (308 + places) := (pow_add _ _ _).symm
      _ ≤ turns := by exact_mod_cast h
  generalize (2 : ℝ) ^ (1023 : ℤ) = b at *
  have hle : b * (1 - 2 ^ (-51 : ℤ)) ≤ |toReal (RealScalar.ofDecimal turns places : Float)| :=
    hread.le_abs hfiniteturns hone hturns
  have hexact : b * (5 / 2) ≤ |toReal (RealScalar.pi : Float) * toReal (RealScalar.ofDecimal turns places : Float)| := by
    have hthree : b * (5 / 2) ≤ 3 * (b * (1 - 2 ^ (-51 : ℤ))) := by
      norm_num
      linarith
    rw [abs_mul]
    exact hthree.trans (mul_le_mul (toReal_pi.1.trans (le_abs_self _)) hle (by norm_num; linarith) (abs_nonneg _))
  have hproduct : b * (5 / 2) * (1 - 2 ^ (-51 : ℤ)) ≤ |toReal (radians turns places)| :=
    (approximates_mul rfl hfiniteturns).le_abs hfinite (by linarith) hexact
  norm_num at hproduct
  linarith

end Range

theorem angle?_eq_some {cs : List Char} {turns places : Nat} (h : angle? cs = some (turns, places)) :
    ofText? (String.ofList cs) = some (RealScalar.ofDecimal turns places) := by
  have hsplit := List.takeWhile_append_dropWhile (p := Char.isDigit) (l := cs)
  have hwhole : (cs.takeWhile Char.isDigit).all Char.isDigit := List.all_takeWhile
  rw [← hsplit]
  rw [angle?] at h
  generalize cs.takeWhile Char.isDigit = whole at *
  generalize cs.dropWhile Char.isDigit = rest at *
  cases rest with
  | nil =>
    simp only at h
    split at h
    · cases h
    · rename_i hne
      cases h
      have hwhole : (whole ++ []).all Char.isDigit := by rwa [List.append_nil]
      have hread := ofText?_eq hwhole (by simpa using hne) (.inr ⟨rfl, rfl⟩)
      rwa [List.append_nil] at hread ⊢
  | cons point places =>
    simp only at h
    split at h
    · rename_i hparts
      obtain ⟨rfl, hplaces, hne⟩ := hparts
      cases h
      refine ofText?_eq (by rw [List.all_append, hwhole, hplaces]; rfl) ?_ (.inl rfl)
      simpa using hne
    · cases h

/-- What follows the first letter in the name of a phase gate is its angle. -/
theorem ofName?_eq_phase {name : String} {turns places : Nat} (h : ofName? name = some (phase turns places)) :
    ∃ angle : String, name = "R" ++ angle ∧ ofText? angle = some (RealScalar.ofDecimal turns places) := by
  unfold ofName? at h
  split at h
  case h_4 cs hname =>
    obtain ⟨angle, hangle, hphase⟩ := Option.map_eq_some_iff.mp h
    cases hphase
    refine ⟨String.ofList cs, ?_, angle?_eq_some hangle⟩
    rw [← String.toList_inj, hname]
    simp
  case h_3 => split at h <;> cases h
  all_goals cases h

/-- The matrix of a builtin gate is a gate exactly if its angle is in range. -/
theorem matrix?_isGate {b : Builtin} {name : String} {m : Matrix FloatComplex} (h : b.matrix? name = .ok m) :
    (b.InRange → m.IsGate) ∧
      (¬b.InRange → ¬(m.entry 1 1).IsFinite ∧
        m.checkUnitary RealScalar.tolerance = .error (.notUnitary RealScalar.tolerance)) := by
  rcases matrix?_cases h with ⟨rfl, rfl⟩ | ⟨rfl, rfl⟩ | ⟨n, hn, rfl, -, rfl⟩ | ⟨turns, places, rfl, rfl⟩
  · exact ⟨fun _ => isGate_hadamard, fun h => absurd trivial h⟩
  · exact ⟨fun _ => isGate_cnot, fun h => absurd trivial h⟩
  · exact ⟨fun _ => isGate_identity hn, fun h => absurd trivial h⟩
  · exact ⟨isGate_phase, phaseMatrix_of_not_finite⟩

end Builtin

/-! ### Names of builtin gates -/

namespace Store
open Builtin

/-- The name of a builtin gate resolves, unless it is an identity of a dimension that no gate has. The matrix is a gate
    if its angle is in range; if not, it has an entry that is not a number and fails the check. An angle is a decimal
    number and is read as such. It is in range with up to 307 digits before the point, and not with 309 or more. -/
theorem resolve_builtin (s : Store FloatComplex) {name : String} {b : Builtin} (hb : ofName? name = some b) :
    ((∃ n, b = .identity n ∧ (n = 0 ∧ s.resolve name = .error (.noGate name) ∨
        maxGateDimension < n ∧ s.resolve name = .error (.gateTooLarge n))) ∨
      ∃ m, s.resolve name = .ok m ∧ (b.InRange → m.IsGate) ∧
        (¬b.InRange → ¬(m.entry 1 1).IsFinite ∧
          m.checkUnitary RealScalar.tolerance = .error (.notUnitary RealScalar.tolerance))) ∧
    ∀ turns places, b = .phase turns places →
      (∃ angle, name = "R" ++ angle ∧ Binary64.ofText? angle = some (RealScalar.ofDecimal turns places)) ∧
      (turns < 10 ^ (307 + places) → b.InRange) ∧ (10 ^ (308 + places) ≤ turns → ¬b.InRange) := by
  rw [s.resolve_of_ofName? hb]
  constructor
  · cases h : (b.matrix? name : Except InstructionError (Matrix FloatComplex)) with
    | ok m => exact .inr ⟨m, rfl, matrix?_isGate h⟩
    | error e =>
      obtain ⟨n, hn, hdimension⟩ := dimensionError?_eq_some.mp ((matrix?_eq_error hb).mp h)
      refine .inl ⟨n, Option.some.inj (hb.symm.trans hn), ?_⟩
      rcases hdimension with ⟨hzero, rfl⟩ | ⟨hmax, rfl⟩
      · exact .inl ⟨hzero, rfl⟩
      · exact .inr ⟨hmax, rfl⟩
  · rintro turns places rfl
    exact ⟨ofName?_eq_phase hb, radians_isFinite, not_radians_isFinite⟩

theorem resolve_builtin_half_turn :
    ofName? "R0.5" = some (.phase 5 1) ∧
      (∃ m : Matrix FloatComplex, empty.resolve "R0.5" = .ok m ∧ m.IsGate) ∧
      ∃ angle, "R0.5" = "R" ++ angle ∧ Binary64.ofText? angle = some (RealScalar.ofDecimal 5 1) := by
  have hname : ofName? "R0.5" = some (.phase 5 1) := by decide +kernel
  obtain ⟨hresolve, hangle⟩ := resolve_builtin empty hname
  obtain ⟨hread, hrange, -⟩ := hangle 5 1 rfl
  refine ⟨hname, ?_, hread⟩
  rcases hresolve with ⟨n, hn, -⟩ | ⟨m, hm, hgate, -⟩
  · cases hn
  · exact ⟨m, hm, hgate (hrange (by decide +kernel))⟩

theorem resolve_overflowing_angle :
    ∃ name, name = String.ofList ('R' :: '1' :: List.replicate 308 '0') ∧ isBuiltin name = true ∧
      ∃ m : Matrix FloatComplex, empty.resolve name = .ok m ∧ ¬(m.entry 1 1).IsFinite ∧
        m.checkUnitary RealScalar.tolerance = .error (.notUnitary RealScalar.tolerance) := by
  have hname : ofName? (String.ofList ('R' :: '1' :: List.replicate 308 '0')) = some (.phase (10 ^ 308) 0) := by
    rw [ofName?, String.toList_ofList]
    decide +kernel
  have hangle : ¬(radians (10 ^ 308) 0).isFinite := not_radians_isFinite (by rw [Nat.add_zero])
  have hresolve := ((empty : Store FloatComplex).resolve_of_ofName? hname).trans (matrix?_phase _ (10 ^ 308) 0)
  exact ⟨_, rfl, by rw [isBuiltin, hname]; rfl, _, hresolve, phaseMatrix_of_not_finite hangle⟩

end Store
end Ketscript
