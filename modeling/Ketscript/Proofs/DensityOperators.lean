import Ketscript.Proofs.Spectra

/-! The density operator of an accepted ensemble in exact arithmetic. It adds up projectors, each at the probability of its
    qubit, so it is hermitian, its quadratic form is a mean of squared moduli, and it does not depend on the order of the
    qubits. Its eigenvalues are therefore real and not negative, whichever square root they are computed with, and the
    entropy is that of these eigenvalues: of the parts that it leaves out only an eigenvalue below the tolerance is not
    zero. -/

namespace Ketscript
variable {ensemble other : List (Emission ℂ ℝ)} {rho sigma : Matrix ℂ}

/-! ### Order -/

theorem checkEnsemble_perm (h : other.Perm ensemble) (hcheck : checkEnsemble ensemble = .ok ()) :
    checkEnsemble other = .ok () := by
  obtain ⟨hdistribution, hnorms⟩ := checkEnsemble_eq_ok.mp hcheck
  obtain ⟨hdistinct, htotal⟩ := checkDistribution_eq_ok.mp hdistribution
  have houtcomes := h.map Emission.outcome
  have hsum : total (other.map Emission.outcome) = total (ensemble.map Emission.outcome) := by
    rw [total, total, ← List.sum_eq_foldl, ← List.sum_eq_foldl]
    exact (houtcomes.map _).sum_eq
  refine checkEnsemble_eq_ok.mpr ⟨checkDistribution_eq_ok.mpr ⟨?_, hsum ▸ htotal⟩, fun x hx => hnorms x (h.mem_iff.mp hx)⟩
  exact (houtcomes.map _).nodup_iff.mpr hdistinct

theorem densityEntry_perm (h : other.Perm ensemble) : densityEntry other = densityEntry ensemble := by
  funext r c
  rw [densityEntry_eq_sum, densityEntry_eq_sum]
  exact (h.map _).sum_eq

theorem HasEntries.unique {f : Nat → Nat → ℂ} (hrho : HasEntries rho f) (hsigma : HasEntries sigma f) : rho = sigma := by
  refine Matrix.ext_entry (hrho.rows.trans hsigma.rows.symm) (hrho.cols.trans hsigma.cols.symm) fun r hr c hc => ?_
  rw [hrho.entry r (hrho.rows ▸ hr) c (hrho.cols ▸ hc), hsigma.entry r (hrho.rows ▸ hr) c (hrho.cols ▸ hc)]

theorem densityOperator_perm (h : other.Perm ensemble) (hrho : densityOperator ensemble = .ok rho) :
    densityOperator other = .ok rho := by
  have hcheck := exists_densityOperator_iff.mp ⟨rho, hrho⟩
  obtain ⟨_, hrho', hentries⟩ := exists_densityOperator hcheck
  obtain rfl := Except.ok.inj (hrho.symm.trans hrho')
  obtain ⟨sigma, hsigma, hentries'⟩ := exists_densityOperator (checkEnsemble_perm h hcheck)
  have hsame : HasEntries sigma (densityEntry ensemble) := densityEntry_perm h ▸ hentries'
  rw [hsigma, hsame.unique hentries]

/-! ### Positive matrices -/

/-- A hermitian matrix of two rows and columns with a quadratic form that is not negative. -/
structure IsPositive (m : Matrix ℂ) : Prop where
  rows : m.rows = 2
  cols : m.cols = 2
  adjoint_eq : m.adjoint = m
  form_nonneg : ∀ v : Ket ℂ, v.size = 2 → ∃ w, ∃ x : ℝ, m.act? v = .ok w ∧ Ket.inner? v w = .ok (x : ℂ) ∧ 0 ≤ x

theorem star_densityEntry (ensemble : List (Emission ℂ ℝ)) (r c : Nat) :
    star (densityEntry ensemble c r) = densityEntry ensemble r c := by
  rw [densityEntry_eq_sum, densityEntry_eq_sum]
  induction ensemble with
  | nil => simp
  | cons x ensemble ih =>
    have hprobability : star (x.probability : ℂ) = x.probability := Complex.conj_ofReal _
    have hshare : star (x.shareEntry c r) = x.shareEntry r c := by
      rw [Emission.shareEntry_eq, Emission.shareEntry_eq, star_mul', star_mul', star_star, hprobability, mul_comm (star _)]
    rw [List.map_cons, List.sum_cons, star_add, ih, hshare, List.map_cons, List.sum_cons]

theorem isPositive_of_hasEntries (hpos : ∀ x ∈ ensemble, 0 ≤ x.probability)
    (h : HasEntries rho (densityEntry ensemble)) : IsPositive rho where
  rows := h.rows
  cols := h.cols
  adjoint_eq := by
    refine Matrix.adjoint_eq_of_entries (h.rows.trans h.cols.symm) fun r hr c hc => ?_
    rw [h.entry r (h.rows ▸ hr) c (h.rows ▸ hc), h.entry c (h.rows ▸ hc) r (h.rows ▸ hr), star_densityEntry]
  form_nonneg v hv := by
    obtain ⟨p, q, rfl⟩ := eq_two_of_size hv
    refine ⟨_, _, if_pos (h.cols.trans hv.symm), ?_,
      mean_nonneg hpos fun x => Complex.normSq_nonneg (star p * x.zero + star q * x.one)⟩
    rw [Ket.inner?_eq_dot (by rw [Matrix.size_act, h.rows]; rfl), Matrix.act_two h.rows h.cols, ← form_eq_mean,
      h.entry 0 Nat.two_pos 0 Nat.two_pos, h.entry 0 Nat.two_pos 1 Nat.one_lt_two, h.entry 1 Nat.one_lt_two 0 Nat.two_pos,
      h.entry 1 Nat.one_lt_two 1 Nat.one_lt_two]
    exact congrArg Except.ok ((Finset.sum_range_succ _ 1).trans (congrArg (· + _) (Finset.sum_range_one _)))

/-! ### Entropies -/

/-- The share of a probability in an entropy, in bits. -/
noncomputable def surprisal (p : ℝ) : ℝ := -p * RealScalar.log2 p

/-- A probability of zero takes no share. -/
theorem sum_surprisal_filter {ps : List ℝ} (hpos : ∀ p ∈ ps, 0 ≤ p) :
    ((ps.filter fun p => decide (0 < p)).map surprisal).sum = (ps.map surprisal).sum := by
  induction ps with
  | nil => rfl
  | cons p ps ih =>
    have ih := ih fun q hq => hpos q (List.mem_cons_of_mem _ hq)
    by_cases hp : 0 < p
    · rw [List.filter_cons_of_pos (by simpa using hp), List.map_cons, List.map_cons, List.sum_cons, List.sum_cons, ih]
    · have hzero : p = 0 := le_antisymm (not_lt.mp hp) (hpos p List.mem_cons_self)
      rw [List.filter_cons_of_neg (by simpa using hp), List.map_cons, List.sum_cons, ih, hzero, surprisal, neg_zero,
        zero_mul, zero_add]

/-- In exact arithmetic an entropy is the sum of the shares of all probabilities. -/
theorem shannonEntropy_eq_sum {pdf : List (Outcome ℝ)} (hpos : ∀ p ∈ pdf.map (·.probability), 0 ≤ p) {h : ℝ}
    (hh : shannonEntropy pdf = .ok h) : h = ((pdf.map (·.probability)).map surprisal).sum := by
  rw [shannonEntropy] at hh
  obtain ⟨-, hh⟩ := check_bind_eq_ok.mp hh
  rw [pure_eq_ok.mp hh, ← sum_surprisal_filter hpos, List.sum_eq_foldl]
  exact congrArg (fun z : ℝ => List.foldl (· + ·) z _) neg_zero

theorem leftOut_le {x : ℝ} (hx : 0 ≤ x) : leftOut x ≤ x := by
  rw [leftOut]
  split
  · exact le_rfl
  · exact hx

/-- The entropy of a spectrum of eigenvalues that are not negative, each read as zero below the tolerance. -/
theorem vonNeumannEntropy_eq_sum {x y h : ℝ} (hrho : densityOperator ensemble = .ok rho)
    (hvalues : rho.eigenvalues? = .ok #[(x : ℂ), (y : ℂ)]) (hx : 0 ≤ x) (hy : 0 ≤ y)
    (hh : vonNeumannEntropy ensemble = .ok h) : h = surprisal (x - leftOut x) + surprisal (y - leftOut y) := by
  have hspectrum : (spectrum (x : ℂ) (y : ℂ)).map (·.probability) = [x - leftOut x, y - leftOut y] := by
    rw [← spectralProbability_eq hx, ← spectralProbability_eq hy]
    rfl
  rw [vonNeumannEntropy_eq hrho hvalues] at hh
  have hsum := shannonEntropy_eq_sum (by simp [hspectrum, leftOut_le hx, leftOut_le hy]) hh
  rw [hsum, hspectrum, List.map_cons, List.map_cons, List.map_nil, List.sum_cons, List.sum_cons, List.sum_nil, add_zero]

/-- The density operator of an accepted ensemble is a positive matrix with the mean of the squared norms as its trace, and
    that of the ensemble in any order. Its eigenvalues are real and not negative and add up to the trace, with any square
    root, and the entropy is that of the eigenvalues, each read as zero below the tolerance. -/
theorem density_operator (root : ℂ → ℂ) (hroot : ∀ z, root z ^ 2 = z) (ensemble : List (Emission ℂ ℝ))
    (hpos : ∀ x ∈ ensemble, 0 ≤ x.probability) (rho : Matrix ℂ) (hrho : densityOperator ensemble = .ok rho) :
    IsPositive rho ∧ rho.entry 0 0 + rho.entry 1 1 = (meanNormSq ensemble : ℂ) ∧
    (∀ other : List (Emission ℂ ℝ), other.Perm ensemble → densityOperator other = .ok rho) ∧
    (∃ x y : ℝ, rho.eigenvaluesBy root = .ok #[(x : ℂ), (y : ℂ)] ∧ 0 ≤ x ∧ 0 ≤ y ∧ x + y = meanNormSq ensemble) ∧
    ∃ x y : ℝ, rho.eigenvalues? = .ok #[(x : ℂ), (y : ℂ)] ∧ 0 ≤ x ∧ 0 ≤ y ∧ ∀ h, vonNeumannEntropy ensemble = .ok h →
      h = surprisal (x - leftOut x) + surprisal (y - leftOut y) := by
  obtain ⟨_, hrho', hentries⟩ := exists_densityOperator (exists_densityOperator_iff.mp ⟨rho, hrho⟩)
  obtain rfl := Except.ok.inj (hrho.symm.trans hrho')
  obtain ⟨x, y, hvalues, hx, hy, -⟩ := exists_eigenvalues_nonneg hentries hpos
  exact ⟨isPositive_of_hasEntries hpos hentries, trace_eq hentries, fun other h => densityOperator_perm h hrho,
    exists_eigenvaluesBy_nonneg hentries hpos hroot, x, y, hvalues, hx, hy,
    fun h => vonNeumannEntropy_eq_sum hrho hvalues hx hy⟩

/-- Two qubits that are neither equal nor orthogonal. -/
theorem density_operator_mixed :
    let ensemble : List (Emission ℂ ℝ) := [⟨"a", 1, 0, 1 / 2⟩, ⟨"b", 3 / 5, 4 / 5 * Complex.I, 1 / 2⟩]
    ((∀ z : ℂ, Amplitude.sqrt z ^ 2 = z) ∧ ∀ x ∈ ensemble, 0 ≤ x.probability) ∧
      ∃ rho : Matrix ℂ, densityOperator ensemble = .ok rho ∧ densityOperator ensemble.reverse = .ok rho ∧
        IsPositive rho ∧ rho.entry 0 0 + rho.entry 1 1 = 1 ∧
        ∃ x y : ℝ, rho.eigenvalues? = .ok #[(x : ℂ), (y : ℂ)] ∧ 0 ≤ x ∧ 0 ≤ y ∧ x + y = 1 := by
  intro ensemble
  have hpos : ∀ x ∈ ensemble, 0 ≤ x.probability := by simp [ensemble]
  have hnorms : ∀ x ∈ ensemble, (Ket.normSq x.qubit : ℝ) = 1 := by
    intro x hx
    rcases List.mem_pair.mp hx with rfl | rfl <;> norm_num [normSq_qubit, Complex.normSq_apply]
  have htotal : total (ensemble.map Emission.outcome) = 1 := by
    show (0 + 1 / 2 + 1 / 2 : ℝ) = 1
    norm_num
  have hcheck : checkEnsemble ensemble = .ok () := by
    refine checkEnsemble_eq_ok.mpr ⟨checkDistribution_eq_ok.mpr ⟨?_, ?_⟩, fun x hx => ?_⟩
    · simp [Distinct, ensemble, Emission.outcome]
    · simp [not_deviates_iff_abs, htotal]
    · have hnorm : (Ket.norm x.qubit : ℝ) = 1 := Real.sqrt_eq_one.mpr (hnorms x hx)
      simp [not_deviates_iff_abs, hnorm]
  have hmean : meanNormSq ensemble = 1 := by
    have hconst : meanNormSq ensemble = mean ensemble fun _ => 1 :=
      congrArg List.sum (List.map_congr_left fun x hx => congrArg (x.probability * ·) (hnorms x hx))
    rw [hconst, mean_const, htotal, mul_one]
  obtain ⟨rho, hrho⟩ := exists_densityOperator_iff.mpr hcheck
  obtain ⟨hpositive, htrace, hperm, ⟨x, y, hvalues, hx, hy, hsum⟩, -⟩ :=
    density_operator Amplitude.sqrt Amplitude.sqrt_sq ensemble hpos rho hrho
  rw [hmean] at htrace hsum
  exact ⟨⟨Amplitude.sqrt_sq, hpos⟩, rho, hrho, hperm _ (List.reverse_perm ensemble), hpositive,
    htrace.trans Complex.ofReal_one, x, y, hvalues, hx, hy, hsum⟩

end Ketscript
