import Ketscript.Proofs.BasisStates

/-! Kronecker products on the halves of a register. The Kronecker product of two kets has the amplitudes of the first
    spread over blocks of the second, and a Kronecker product of matrices acts on it factor by factor. The basis state
    of bits is the product of the basis states of their two parts, so a gate that was defined as a Kronecker product
    acts with one factor on the first bits of a register and with the other on the rest. -/

namespace Ketscript
open Finset

namespace Ket
variable {K : Type}

/-- The Kronecker product: a block `uᵢ * v` for every entry of `u`. -/
def tensor [Mul K] [Zero K] (u v : Ket K) : Ket K :=
  Array.ofFn fun i : Fin (u.size * v.size) => u.getD (i / v.size) 0 * v.getD (i % v.size) 0

section
variable [Mul K] [Zero K] {u v : Ket K}

theorem size_tensor (u v : Ket K) : (u.tensor v).size = u.size * v.size := Array.size_ofFn

theorem getD_tensor {k : Nat} (hk : k < u.size * v.size) :
    (u.tensor v).getD k 0 = u.getD (k / v.size) 0 * v.getD (k % v.size) 0 := by
  rw [tensor, Array.getD_eq_getD_getElem?, Array.getElem?_ofFn, dif_pos hk, Option.getD_some]

theorem getD_tensor_place {i j : Nat} (hi : i < u.size) (hj : j < v.size) :
    (u.tensor v).getD (i * v.size + j) 0 = u.getD i 0 * v.getD j 0 := by
  have hdiv : (i * v.size + j) / v.size = i := by
    rw [Nat.mul_comm, Nat.mul_add_div (Nat.zero_lt_of_lt hj), Nat.div_eq_of_lt hj, Nat.add_zero]
  have hmod : (i * v.size + j) % v.size = j := by
    rw [Nat.mul_comm, Nat.mul_add_mod, Nat.mod_eq_of_lt hj]
  rw [getD_tensor (Matrix.place_lt hi hj), hdiv, hmod]

end

/-- The basis state of bits is the product of those of their two parts. -/
theorem ofBits_append [CommSemiring K] (x y : Bits) : (ofBits (x ++ y) : Ket K) = (ofBits x).tensor (ofBits y) := by
  refine ext_getD ?_ fun k hk => ?_
  · rw [size_tensor, size_ofBits, size_ofBits, size_ofBits, List.length_append, Nat.pow_add]
  · have hpos : 0 < 2 ^ List.length y := Nat.two_pow_pos _
    have hplace : k = (x ++ y).value ↔ k / 2 ^ List.length y = x.value ∧ k % 2 ^ List.length y = y.value := by
      rw [Nat.div_mod_unique hpos, Bits.value_append]
      have hy : y.value < 2 ^ List.length y := y.value_lt
      grind
    rw [size_ofBits, List.length_append, Nat.pow_add] at hk
    have hx : k / 2 ^ List.length y < 2 ^ List.length x := Nat.div_lt_of_lt_mul (by rwa [Nat.mul_comm])
    have hy : k % 2 ^ List.length y < 2 ^ List.length y := Nat.mod_lt _ hpos
    rw [getD_tensor (by rwa [size_ofBits, size_ofBits]), size_ofBits, ofBits, ofBits, ofBits, getD_basis hx,
      getD_basis hy, getD_basis (by rwa [List.length_append, Nat.pow_add])]
    simp only [hplace, ite_and]
    split <;> simp

end Ket

namespace Matrix
variable {K : Type} [CommSemiring K]

theorem tensor_assoc (a b c : Matrix K) : (a.tensor b).tensor c = a.tensor (b.tensor c) := by
  refine ext_entry (Nat.mul_assoc _ _ _) (Nat.mul_assoc _ _ _) fun r hr s hs => ?_
  have hr' : r < a.rows * (b.rows * c.rows) := Nat.mul_assoc _ _ _ ▸ hr
  have hs' : s < a.cols * (b.cols * c.cols) := Nat.mul_assoc _ _ _ ▸ hs
  have hinner {i j k : Nat} (hj : 0 < j) (hi : i < k * j) : i / j < k := Nat.div_lt_of_lt_mul (Nat.mul_comm k j ▸ hi)
  rw [entry_tensor (a.tensor b) c hr hs, entry_tensor a (b.tensor c) hr' hs',
    entry_tensor a b (hinner c.rows_pos hr) (hinner c.cols_pos hs), rows_tensor b c, cols_tensor b c,
    entry_tensor b c (Nat.mod_lt _ (b.tensor c).rows_pos) (Nat.mod_lt _ (b.tensor c).cols_pos)]
  simp only [Nat.div_div_eq_div_mul, Nat.mod_mul_left_mod, Nat.mod_mul_left_div_self,
    Nat.mul_comm c.rows, Nat.mul_comm c.cols, mul_assoc]

theorem tensor_act {a b : Matrix K} {u v : Ket K} (hu : a.cols = u.size) (hv : b.cols = v.size) :
    (a.tensor b).act (u.tensor v) = (a.act u).tensor (b.act v) := by
  refine Ket.ext_getD ?_ fun r hr => ?_
  · rw [Ket.size_tensor, size_act, size_act, size_act, rows_tensor]
  · rw [size_act, rows_tensor] at hr
    have hdiv : r / b.rows < a.rows := Nat.div_lt_of_lt_mul (Nat.mul_comm a.rows b.rows ▸ hr)
    have hmod : r % b.rows < b.rows := Nat.mod_lt _ b.rows_pos
    calc ((a.tensor b).act (u.tensor v)).getD r 0
        = ∑ k ∈ range (a.cols * b.cols), a.entry (r / b.rows) (k / b.cols) * b.entry (r % b.rows) (k % b.cols) *
            (u.getD (k / b.cols) 0 * v.getD (k % b.cols) 0) := by
          rw [getD_act _ _ hr]
          refine sum_congr rfl fun k hk => ?_
          have hk := mem_range.mp hk
          rw [entry_tensor a b hr hk, Ket.getD_tensor (by rwa [← hu, ← hv]), hv]
      _ = ∑ i ∈ range a.cols, ∑ j ∈ range b.cols, a.entry (r / b.rows) i * b.entry (r % b.rows) j *
            (u.getD i 0 * v.getD j 0) :=
          sum_range_mul_eq (fun i j => a.entry (r / b.rows) i * b.entry (r % b.rows) j *
            (u.getD i 0 * v.getD j 0)) b.cols_pos a.cols
      _ = (a.act u).getD (r / b.rows) 0 * (b.act v).getD (r % b.rows) 0 := by
          rw [getD_act a u hdiv, getD_act b v hmod, sum_mul_sum]
          exact sum_congr rfl fun i _ => sum_congr rfl fun j _ => mul_mul_mul_comm _ _ _ _
      _ = ((a.act u).tensor (b.act v)).getD r 0 := by
          rw [Ket.getD_tensor (by rwa [size_act, size_act]), size_act]

end Matrix

/-! ### Registers -/

namespace Machine
variable {K R : Type} [CommSemiring K] [BEq K] [RealScalar R] [Amplitude K R]

/-- A gate that is a Kronecker product acts on a register that is one factor by factor. -/
theorem apply_tensor {m : Machine K} {gate register : String} {a b : Matrix K} {u v : Ket K} (words : Nat → UInt64)
    (ha : a.IsSquare ∧ a.rows = u.size) (hb : b.IsSquare ∧ b.rows = v.size)
    (hregister : m.store.registers.find? register = some (u.tensor v))
    (hgate : m.store.resolve gate = .ok (a.tensor b)) :
    ∃ m', m.run words (.apply gate register) = (.ok none, m') ∧
      m'.store.registers.find? register = some ((a.act u).tensor (b.act v)) := by
  have hu : a.cols = u.size := ha.1.symm.trans ha.2
  have hv : b.cols = v.size := hb.1.symm.trans hb.2
  have hsquare : (a.tensor b).IsSquare := congrArg₂ (· * ·) ha.1 hb.1
  have hrows : (a.tensor b).rows = (u.tensor v).size := by rw [hsquare, Matrix.cols_tensor, Ket.size_tensor, hu, hv]
  refine ⟨_, run_apply words m hregister hgate ⟨hsquare, hrows⟩, ?_⟩
  rw [NameMap.find?_insert_self, Matrix.tensor_act hu hv]

/-- A gate that is a Kronecker product acts on the two parts of a basis state separately. -/
theorem apply_tensor_ofBits {m : Machine K} {gate register : String} {a b : Matrix K} {x y : Bits}
    (words : Nat → UInt64) (ha : a.IsSquare ∧ a.rows = 2 ^ x.length) (hb : b.IsSquare ∧ b.rows = 2 ^ y.length)
    (hregister : m.store.registers.find? register = some (Ket.ofBits (x ++ y)))
    (hgate : m.store.resolve gate = .ok (a.tensor b)) :
    ∃ m', m.run words (.apply gate register) = (.ok none, m') ∧
      m'.store.registers.find? register = some ((a.act (Ket.ofBits x)).tensor (b.act (Ket.ofBits y))) := by
  rw [Ket.ofBits_append] at hregister
  exact apply_tensor words ⟨ha.1, ha.2.trans (Ket.size_ofBits x).symm⟩ ⟨hb.1, hb.2.trans (Ket.size_ofBits y).symm⟩
    hregister hgate

/-- What the two instructions before it leave for a Kronecker product that is applied: the gate and the basis state. -/
theorem resolve_find?_of_tensor_prepare {words : Nat → UInt64} {m m₁ m₂ : Machine K}
    {name left right register qubits x y : String} {a b : Matrix K} {r s : Option Bits}
    (hbits : ∀ c ∈ (x ++ y).toList, c = '0' ∨ c = '1') (hleft : m.store.resolve left = .ok a)
    (hright : m.store.resolve right = .ok b) (hdefine : m.run words (.tensor name left right) = (.ok r, m₁))
    (hprepare : m₁.run words (.prepare register qubits (some (x ++ y))) = (.ok s, m₂)) :
    m₂.store.resolve name = .ok (a.tensor b) ∧
      m₂.store.registers.find? register = some (Ket.ofBits (.ofText x ++ .ofText y)) := by
  have hgate : m₁.store.resolve name = .ok (a.tensor b) := by
    cases step_of_run hdefine with
    | define hdefines hfree =>
      cases hdefines with
      | tensor hleft' hright' =>
        cases hleft.symm.trans hleft'
        cases hright.symm.trans hright'
        exact Store.resolve_insert_self hfree
  refine ⟨(step_of_run hprepare).resolve_kept hgate, ?_⟩
  cases step_of_run hprepare with
  | define hdefines => cases hdefines
  | prepare _ _ _ hqubits hindex =>
    obtain ⟨rfl, rfl⟩ := (Store.basisIndex?_eq_ok hqubits.1 hbits).mp hindex
    rw [NameMap.find?_insert_self, ← Bits.ofText_append, Ket.ofBits, Bits.length_ofText, Nat.one_shiftLeft]

/-- Kronecker products multiply factor by factor, are associative, and that of two identities is an identity. They act
    factor by factor on Kronecker products of kets, in which the places of the second ket run through those of each
    block. So on any machine a gate that is a Kronecker product, of gates for as many qubits as `x` and `y` have bits,
    leaves a register in the basis state of `x` and then `y` in the product of what its factors make of `x` and of `y`.
    So it does right after the gate was defined and the register was prepared with these bits. -/
theorem tensor_halves [LawfulBEq K] :
    (∀ a b c d : Matrix K, a.cols = c.rows → b.cols = d.rows → ∃ p q,
      a.mul? c = .ok p ∧ b.mul? d = .ok q ∧ (a.tensor b).mul? (c.tensor d) = .ok (p.tensor q)) ∧
    (∀ a b c : Matrix K, (a.tensor b).tensor c = a.tensor (b.tensor c)) ∧
    (∀ (m n : Nat) (hm : 0 < m) (hn : 0 < n),
      (Matrix.identity m hm).tensor (.identity n hn) = (.identity (m * n) (Nat.mul_pos hm hn) : Matrix K)) ∧
    (∀ (a b : Matrix K) (u v : Ket K), a.cols = u.size → b.cols = v.size → ∃ p q,
      a.act? u = .ok p ∧ b.act? v = .ok q ∧ (a.tensor b).act? (u.tensor v) = .ok (p.tensor q)) ∧
    (∀ u v : Ket K, (u.tensor v).size = u.size * v.size ∧ ∀ i < u.size, ∀ j < v.size,
      (u.tensor v).getD (i * v.size + j) 0 = u.getD i 0 * v.getD j 0) ∧
    (∀ (words : Nat → UInt64) (m : Machine K) (gate register : String) (x y : Bits) (a b : Matrix K),
      a.IsSquare ∧ a.rows = 2 ^ x.length → b.IsSquare ∧ b.rows = 2 ^ y.length →
      m.store.registers.find? register = some (Ket.ofBits (x ++ y)) → m.store.resolve gate = .ok (a.tensor b) →
      ∃ m', m.run words (.apply gate register) = (.ok none, m') ∧ m'.store.registers.find? register =
        some ((a.act (Ket.ofBits x)).tensor (b.act (Ket.ofBits y)))) ∧
    ∀ (words : Nat → UInt64) (m m₁ m₂ : Machine K) (name left right register qubits x y : String)
      (a b : Matrix K) (r s : Option Bits), (∀ c ∈ (x ++ y).toList, c = '0' ∨ c = '1') →
      m.store.resolve left = .ok a → a.IsSquare ∧ a.rows = 2 ^ x.length →
      m.store.resolve right = .ok b → b.IsSquare ∧ b.rows = 2 ^ y.length →
      m.run words (.tensor name left right) = (.ok r, m₁) →
      m₁.run words (.prepare register qubits (some (x ++ y))) = (.ok s, m₂) →
      ∃ m₃, m₂.run words (.apply name register) = (.ok none, m₃) ∧ m₃.store.registers.find? register =
        some ((a.act (Ket.ofBits (.ofText x))).tensor (b.act (Ket.ofBits (.ofText y)))) := by
  refine ⟨fun a b c d hac hbd => ?_, Matrix.tensor_assoc, fun m n hm hn => Matrix.identity_tensor_identity hm hn,
    fun a b u v hu hv => ?_, fun u v => ⟨Ket.size_tensor u v, fun i hi j hj => Ket.getD_tensor_place hi hj⟩, ?_, ?_⟩
  · have hinner : (a.tensor b).cols = (c.tensor d).rows := congrArg₂ (· * ·) hac hbd
    refine ⟨_, _, if_pos hac, if_pos hbd, ?_⟩
    rw [← Matrix.tensor_mul_tensor hac hbd]
    exact if_pos hinner
  · have hcols : (a.tensor b).cols = (u.tensor v).size := by rw [Matrix.cols_tensor, Ket.size_tensor, hu, hv]
    refine ⟨_, _, if_pos hu, if_pos hv, ?_⟩
    rw [← Matrix.tensor_act hu hv]
    exact if_pos hcols
  · intro words m gate register x y a b ha hb hregister hgate
    exact apply_tensor_ofBits words ha hb hregister hgate
  · intro words m m₁ m₂ name left right register qubits x y a b r s hbits hleft ha hright hb hdefine hprepare
    obtain ⟨hgate, hregister⟩ := resolve_find?_of_tensor_prepare hbits hleft hright hdefine hprepare
    rw [← Bits.length_ofText] at ha hb
    exact apply_tensor_ofBits words ha hb hregister hgate

theorem tensor_halves_hadamard :
    let words : Nat → UInt64 := fun _ => 0
    let m : Machine ℂ := fresh
    let m₁ := (m.run words (.tensor "U" "H" "CNOT")).2
    let m₂ := (m₁.run words (.prepare "Q" "3" (some ("0" ++ "10")))).2
    let n₁ := (m.run words (.prepare "Q" "3" (some "010"))).2
    let n₂ := (n₁.run words (.tensor "U" "H" "CNOT")).2
    let zero : Ket ℂ := Ket.ofBits [false]
    let two : Ket ℂ := Ket.ofBits [true, false]
    (∃ m₃, m₂.run words (.apply "U" "Q") = (.ok none, m₃) ∧ m₃.store.registers.find? "Q" =
      some ((Builtin.hadamardMatrix.act zero).tensor (Builtin.cnotMatrix.act two))) ∧
    ∃ n₃, n₂.run words (.apply "U" "Q") = (.ok none, n₃) ∧ n₃.store.registers.find? "Q" =
      some ((Builtin.hadamardMatrix.act zero).tensor (Builtin.cnotMatrix.act two)) := by
  intro words m m₁ m₂ n₁ n₂ zero two
  obtain ⟨-, -, -, -, -, hgate, hinstructions⟩ := tensor_halves (K := ℂ)
  have hdefines (s : Store ℂ) : s.Defines (.tensor "U" "H" "CNOT") "U" _ :=
    .tensor s.resolve_hadamard s.resolve_cnot (by decide)
  have hdefine {m : Machine ℂ} (hfree : m.store.checkDefinable "U" = .ok ()) :=
    (Step.define (hdefines m.store) hfree : m.Step words _ none _).run_eq
  refine ⟨?_, ?_⟩
  · have hm₁ : m₁ = _ := congrArg Prod.snd (hdefine (m := m) rfl)
    have hprepare : m₁.run words (.prepare "Q" "3" (some ("0" ++ "10"))) = (.ok none, m₂) := by
      refine Prod.ext ?_ rfl
      rw [hm₁]
      rfl
    exact hinstructions words m m₁ m₂ "U" "H" "CNOT" "Q" "3" "0" "10" _ _ none none (by simp) m.store.resolve_hadamard
      ⟨rfl, rfl⟩ m.store.resolve_cnot ⟨rfl, rfl⟩ (hm₁ ▸ hdefine rfl) hprepare
  · have hn₂ : n₂ = _ := congrArg Prod.snd (hdefine (m := n₁) rfl)
    have hregister : n₂.store.registers.find? "Q" = some (Ket.ofBits ([false] ++ [true, false])) := by
      rw [hn₂]
      rfl
    have hresolve : n₂.store.resolve "U" = .ok (Builtin.hadamardMatrix.tensor Builtin.cnotMatrix) := by
      rw [hn₂]
      exact Store.resolve_insert_self rfl
    exact hgate words n₂ "U" "Q" [false] [true, false] _ _ ⟨rfl, rfl⟩ ⟨rfl, rfl⟩ hregister hresolve

end Machine
end Ketscript
