import Ketscript.Proofs.BasisStates

/-! Initial bits of registers that are made without a line, so that the bits may be any text. The text needs one byte
    for every qubit and is read as a binary number. Such a number may start with a plus sign, and a register whose first
    bit is a plus sign is made from the other bits. Every other text that is not made of bits is refused. -/

namespace Ketscript

/-- One binary digit for each of `k` qubits. -/
def IsBits (k : Nat) (s : String) : Prop := (∀ c ∈ s.toList, c = '0' ∨ c = '1') ∧ s.length = k

instance (k : Nat) (s : String) : Decidable (IsBits k s) := inferInstanceAs (Decidable (_ ∧ _))

/-- A plus sign and at least one binary digit, `k` characters in all. -/
def IsSignedBits (k : Nat) (s : String) : Prop :=
  ∃ digits : String, s = "+" ++ digits ∧ digits ≠ "" ∧ IsBits (k - 1) digits

theorem not_isSignedBits_of_bits {k : Nat} {s : String} (h : ∀ c ∈ s.toList, c = '0' ∨ c = '1') :
    ¬IsSignedBits k s := by
  rintro ⟨digits, rfl, -⟩
  have hplus : '+' ∈ ("+" ++ digits).toList := by simp [String.toList_append]
  exact absurd (h '+' hplus) (by decide)

/-! ### Binary numbers -/

namespace Text

theorem cases_of_unsignedDigits? {cs digits : List Char} (h : unsignedDigits? cs = some digits) :
    digits ≠ [] ∧ (cs = digits ∨ cs = '+' :: digits) := by
  unfold unsignedDigits? at h
  split at h
  · cases h
  · cases h
  · rename_i hplus
    cases h
    exact ⟨fun hnil => hplus (hnil ▸ rfl), .inr rfl⟩
  · rename_i hnil _ _
    cases h
    exact ⟨hnil, .inl rfl⟩

/-- Only binary digits are read as a binary number, with or without a plus sign. -/
theorem cases_of_binary? {s : String} {n : Nat} (h : binary? s = some n) :
    ∃ digits : String, digits ≠ "" ∧ (∀ c ∈ digits.toList, c = '0' ∨ c = '1') ∧ (s = digits ∨ s = "+" ++ digits) := by
  simp only [binary?, Option.bind_eq_bind, Option.bind_eq_some_iff] at h
  obtain ⟨digits, hdigits, h⟩ := h
  obtain ⟨hne, hsign⟩ := cases_of_unsignedDigits? hdigits
  have hbits : digits.all (fun c => c == '0' || c == '1') = true := by
    by_contra hbits
    rw [if_neg hbits] at h
    cases h
  refine ⟨String.ofList digits, by simpa [← String.toList_inj] using hne, by simpa using hbits, ?_⟩
  simpa [← String.toList_inj, String.toList_append] using hsign

theorem binary?_plus {digits : String} (hne : digits ≠ "") (h : ∀ c ∈ digits.toList, c = '0' ∨ c = '1') :
    binary? ("+" ++ digits) = some (Bits.ofText digits).value := by
  have hsigned : unsignedDigits? ("+" ++ digits).toList = some digits.toList := by
    rw [String.toList_append]
    show unsignedDigits? ('+' :: digits.toList) = _
    cases hdigits : digits.toList with
    | nil => exact absurd (String.toList_inj.mp hdigits) hne
    | cons c cs => rfl
  rw [binary?_of_digits hsigned h, valueOfDigits_two_eq h]

theorem utf8ByteSize_plus {digits : String} (h : ∀ c ∈ digits.toList, c = '0' ∨ c = '1') :
    ("+" ++ digits).utf8ByteSize = digits.length + 1 := by
  rw [String.utf8ByteSize_append, utf8ByteSize_bits h, Nat.add_comm]
  rfl

end Text

/-! ### Indices -/

namespace Store

theorem basisIndex?_plus {k : Nat} {digits : String} (hne : digits ≠ "") (h : IsBits (k - 1) digits) :
    basisIndex? k (some ("+" ++ digits)) = .ok (Bits.ofText digits).value := by
  obtain ⟨hbits, hlength⟩ := h
  have hpos : digits.length ≠ 0 := by simpa using hne
  have hsize : ("+" ++ digits).utf8ByteSize = k := by
    rw [Text.utf8ByteSize_plus hbits]
    omega
  simp [basisIndex?, hsize, Text.binary?_plus hne hbits]

theorem basisIndex?_of_other {k : Nat} {s : String} (hbits : ¬IsBits k s) (hsigned : ¬IsSignedBits k s) :
    ∃ cause, basisIndex? k (some s) = .error (.invalidSyntax cause) := by
  rw [basisIndex?]
  split
  · exact ⟨_, rfl⟩
  · rename_i hsize
    rw [Classical.not_not] at hsize
    cases hn : Text.binary? s with
    | none => exact ⟨_, rfl⟩
    | some n =>
      -- A text that is read is bits or has bits after a plus sign, and its bytes are then its characters.
      obtain ⟨digits, hne, hdigits, rfl | rfl⟩ := Text.cases_of_binary? hn
      · exact absurd ⟨hdigits, (Text.utf8ByteSize_bits hdigits).symm.trans hsize⟩ hbits
      · rw [Text.utf8ByteSize_plus hdigits] at hsize
        exact absurd ⟨digits, rfl, hne, hdigits, by omega⟩ hsigned

end Store

/-! ### New registers -/

/-- One in the place of an index among `2 ^ k` amplitudes, and zero everywhere else. -/
structure Ket.IsBasis {K : Type} [Zero K] [One K] (v : Ket K) (k index : Nat) : Prop where
  index_lt : index < 2 ^ k
  size_eq : v.size = 2 ^ k
  getD_eq : ∀ i < 2 ^ k, v.getD i 0 = if i = index then 1 else 0

theorem Ket.isBasis_basis {K : Type} [Zero K] [One K] {k index : Nat} (h : index < 2 ^ k) :
    (basis (1 <<< k) index : Ket K).IsBasis k index := by
  rw [Nat.one_shiftLeft]
  exact ⟨h, size_basis _ _, fun i hi => getD_basis hi⟩

namespace Machine
variable {K R : Type} [RealScalar R] [Amplitude K R] [Add K] [Mul K] [Zero K] [One K] [BEq K]
variable {words : Nat → UInt64} {m : Machine K} {register bits : String} {k index : Nat}

/-- The store puts a basis state into a register, and so does the machine for every literal of the number of qubits. -/
def Creates (words : Nat → UInt64) (m : Machine K) (register : String) (k : Nat) (bits : String) (index : Nat) : Prop :=
  ∃ v : Ket K, v.IsBasis k index ∧
    let store := { m.store with registers := m.store.registers.insert register v }
    (Store.create register k (some bits)).on m.store = (.ok (), store) ∧
      ∀ literal, Text.count? literal = some k →
        m.run words (.prepare register literal (some bits)) = (.ok none, { m with store })

/-- The store refuses the initial bits and stays as it is, and so does the machine. -/
def Rejects (words : Nat → UInt64) (m : Machine K) (register : String) (k : Nat) (bits : String) : Prop :=
  ∃ cause, (Store.create register k (some bits)).on m.store = (.error (.invalidSyntax cause), m.store) ∧
    ∀ literal, Text.count? literal = some k →
      m.run words (.prepare register literal (some bits)) = (.error (.invalidSyntax cause), m)

theorem creates_of_basisIndex (hbuiltin : Store.isBuiltin register = false)
    (hgate : m.store.gates.contains register = false) (hqubits : 1 ≤ k ∧ k ≤ maxQubits)
    (hindex : Store.basisIndex? k (some bits) = .ok index) : m.Creates words register k bits index := by
  have hcreate := Store.create_eq_ok.mpr ⟨hbuiltin, hgate, hqubits, index, hindex, rfl⟩
  refine ⟨_, Ket.isBasis_basis (Store.basisIndex?_lt hindex), hcreate, fun literal hcount => ?_⟩
  rw [run_prepare words m (qubitCount_eq_ok.mpr hcount), hcreate]
  rfl

theorem rejects_of_basisIndex (hbuiltin : Store.isBuiltin register = false)
    (hgate : m.store.gates.contains register = false) (hqubits : 1 ≤ k ∧ k ≤ maxQubits) {cause : SyntaxError}
    (hindex : Store.basisIndex? k (some bits) = .error (.invalidSyntax cause)) : m.Rejects words register k bits := by
  have hcreate : (Store.create register k (some bits)).on m.store = (.error (.invalidSyntax cause), m.store) := by
    simp [Store.on_create, hbuiltin, hgate, hqubits, hindex]
  refine ⟨cause, hcreate, fun literal hcount => ?_⟩
  rw [run_prepare words m (qubitCount_eq_ok.mpr hcount), hcreate]
  rfl

theorem Creates.not_rejects (h : m.Creates words register k bits index) : ¬m.Rejects words register k bits := by
  obtain ⟨v, -, hcreate, -⟩ := h
  rintro ⟨cause, hreject, -⟩
  cases hcreate.symm.trans hreject

/-- Under a name that is no gate's, bits for every qubit make the basis state of their value and any other text is
    refused, unless the text is a plus sign with bits after it. These make the basis state of their own value. -/
theorem create_initial_bits (words : Nat → UInt64) (m : Machine K) {register : String} {k : Nat}
    (hbuiltin : Store.isBuiltin register = false) (hgate : m.store.gates.contains register = false)
    (hqubits : 1 ≤ k ∧ k ≤ maxQubits) (bits : String) :
    ((IsBits k bits → m.Creates words register k bits (Bits.ofText bits).value) ∧
        (¬IsBits k bits → m.Rejects words register k bits) ↔ ¬IsSignedBits k bits) ∧
      ∀ digits, bits = "+" ++ digits → digits ≠ "" → IsBits (k - 1) digits →
        m.Creates words register k bits (Bits.ofText digits).value := by
  have hsigned : ∀ digits, bits = "+" ++ digits → digits ≠ "" → IsBits (k - 1) digits →
      m.Creates words register k bits (Bits.ofText digits).value := by
    rintro digits rfl hne hdigits
    exact creates_of_basisIndex hbuiltin hgate hqubits (Store.basisIndex?_plus hne hdigits)
  refine ⟨⟨?_, fun h => ⟨fun hbits => ?_, fun hbits => ?_⟩⟩, hsigned⟩
  · rintro ⟨-, hother⟩ ⟨digits, heq, hne, hdigits⟩
    have hbits : ¬IsBits k bits := fun h => not_isSignedBits_of_bits h.1 ⟨digits, heq, hne, hdigits⟩
    exact (hsigned digits heq hne hdigits).not_rejects (hother hbits)
  · obtain ⟨hdigits, hlength⟩ := hbits
    exact creates_of_basisIndex hbuiltin hgate hqubits ((Store.basisIndex?_eq_ok hqubits.1 hdigits).mpr ⟨hlength, rfl⟩)
  · obtain ⟨cause, hcause⟩ := Store.basisIndex?_of_other hbits h
    exact rejects_of_basisIndex hbuiltin hgate hqubits hcause

theorem create_initial_bits_two :
    let m : Machine FloatComplex := fresh
    ¬IsSignedBits 2 "10" ∧ m.Creates (fun _ => 0) "Q" 2 "10" 2 ∧ m.Rejects (fun _ => 0) "Q" 2 "1" ∧
      m.Creates (fun _ => 0) "Q" 2 "+1" 1 := by
  intro m
  have hgate : m.store.gates.contains "Q" = false := by decide
  have hqubits : 1 ≤ 2 ∧ 2 ≤ maxQubits := by decide
  have hcreate := create_initial_bits (fun _ => 0) m (by decide) hgate hqubits
  have hten : IsBits 2 "10" := ⟨by simp, by decide⟩
  have hone : IsBits 1 "1" := ⟨by simp, by decide⟩
  have hten_signed : ¬IsSignedBits 2 "10" := not_isSignedBits_of_bits hten.1
  have hone_signed : ¬IsSignedBits 2 "1" := not_isSignedBits_of_bits hone.1
  have hshort : ¬IsBits 2 "1" := fun h => absurd h.2 (by decide)
  exact ⟨hten_signed, ((hcreate "10").1.mpr hten_signed).1 hten, ((hcreate "1").1.mpr hone_signed).2 hshort,
    (hcreate "+1").2 "1" (by decide) (by decide) hone⟩

theorem create_plus_one :
    let m : Machine FloatComplex := fresh
    let store := { m.store with registers := m.store.registers.insert "Q" (Ket.basis 4 1) }
    ¬IsBits 2 "+1" ∧ (Store.create "Q" 2 (some "+1")).on m.store = (.ok (), store) ∧
      m.run (fun _ => 0) (.prepare "Q" "2" (some "+1")) = (.ok none, { m with store }) :=
  ⟨by simp [IsBits], rfl, rfl⟩

end Machine
end Ketscript
