import Ketscript.Proofs.BuiltinGates
import Ketscript.Proofs.Linear.Exact
import Ketscript.Proofs.Runs

/-! A product of gates acts as its factors do one after the other, the right one first. This holds over every
    commutative ring of amplitudes, and for products of products in any bracketing: the gates that a chain of
    definitions builds on are applied from the last to the first. -/

namespace Ketscript

/-! ### Chains -/

/-- A bracketing of gates, with the names of the products. -/
inductive Chain where
  | gate (name : String)
  | concat (name : String) (left right : Chain)

namespace Chain

/-- The name of the whole product. -/
def name : Chain → String
  | gate name => name
  | concat name _ _ => name

/-- The gates from left to right. -/
def gates : Chain → List String
  | gate name => [name]
  | concat _ left right => left.gates ++ right.gates

/-- The names of all products. -/
def products : Chain → List String
  | gate _ => []
  | concat name left right => left.products ++ right.products ++ [name]

/-- The definitions of the products, those of the factors before that of their product. -/
def definitions : Chain → List Instruction
  | gate _ => []
  | concat name left right => left.definitions ++ right.definitions ++ [.concat name left.name right.name]

variable {K : Type} [Semiring K] [BEq K] {d : Nat} {matrixOf : String → Matrix K}

/-- The matrix of the whole product, from those of the gates. -/
def matrix (matrixOf : String → Matrix K) : Chain → Matrix K
  | gate name => matrixOf name
  | concat _ left right => (left.matrix matrixOf).mul (right.matrix matrixOf)

theorem shape_matrix (c : Chain) (h : ∀ g ∈ c.gates, (matrixOf g).rows = d ∧ (matrixOf g).cols = d) :
    (c.matrix matrixOf).rows = d ∧ (c.matrix matrixOf).cols = d := by
  induction c with
  | gate name => exact h name List.mem_cons_self
  | concat name left right ihleft ihright =>
    exact ⟨(ihleft fun g hg => h g (List.mem_append_left _ hg)).1,
      (ihright fun g hg => h g (List.mem_append_right _ hg)).2⟩

/-- The product acts as the gates do one after the other, from the last to the first. -/
theorem act_matrix [LawfulBEq K] (c : Chain) (h : ∀ g ∈ c.gates, (matrixOf g).rows = d ∧ (matrixOf g).cols = d)
    (v : Ket K) : (c.matrix matrixOf).act v = c.gates.reverse.foldl (fun v g => (matrixOf g).act v) v := by
  induction c generalizing v with
  | gate name => rfl
  | concat name left right ihleft ihright =>
    have hl : ∀ g ∈ left.gates, _ := fun g hg => h g (List.mem_append_left _ hg)
    have hr : ∀ g ∈ right.gates, _ := fun g hg => h g (List.mem_append_right _ hg)
    have hinner : (left.matrix matrixOf).cols = (right.matrix matrixOf).rows :=
      (left.shape_matrix hl).2.trans (right.shape_matrix hr).1.symm
    rw [matrix, Matrix.act_mul hinner, ihleft hl, ihright hr, gates, List.reverse_append, List.foldl_append]

end Chain

/-! ### Runs -/

namespace Machine
variable {K R : Type} [RealScalar R] [Amplitude K R] [CommRing K] [BEq K] {words : Nat → UInt64} {m m' : Machine K}
variable {d : Nat} {matrixOf : String → Matrix K}

theorem apply_steps {gates : List String} {register : String} {v : Ket K}
    (hregister : m.store.registers.find? register = some v)
    (hgates : ∀ g ∈ gates, m.store.resolve g = .ok (matrixOf g) ∧
      (matrixOf g).rows = v.size ∧ (matrixOf g).cols = v.size) :
    m.Steps words (gates.map (.apply · register)) { m with store := { m.store with
      registers := m.store.registers.insert register (gates.foldl (fun v g => (matrixOf g).act v) v) } } := by
  induction gates generalizing m v with
  | nil =>
    rw [List.foldl_nil, NameMap.insert_eq_self hregister]
    exact .nil
  | cons g rest ih =>
    obtain ⟨hg, hrows, hcols⟩ := hgates g List.mem_cons_self
    have hsize : ((matrixOf g).act v).size = v.size := (Matrix.size_act _ v).trans hrows
    refine .cons (run_apply words m hregister hg ⟨hrows.trans hcols.symm, hrows⟩) ?_
    have htail := ih (m := { m with store := { m.store with
      registers := m.store.registers.insert register ((matrixOf g).act v) } }) (NameMap.find?_insert_self _ _ _)
      fun g' hg' => hsize ▸ hgates g' (List.mem_cons_of_mem _ hg')
    simp only [NameMap.insert_insert_self] at htail
    exact htail

/-- The definitions of a chain succeed if its gates have matrices of one dimension and its products have free
    names, all different. Only the products are new after them. -/
theorem definitions_steps (words : Nat → UInt64) (c : Chain)
    (hgates : ∀ g ∈ c.gates, m.store.resolve g = .ok (matrixOf g) ∧
      (matrixOf g).rows = d ∧ (matrixOf g).cols = d)
    (hproducts : ∀ name ∈ c.products, m.store.checkDefinable name = .ok ()) (hdistinct : c.products.Nodup) :
    ∃ m', m.Steps words c.definitions m' ∧ m'.store.registers = m.store.registers ∧
      m'.store.resolve c.name = .ok (c.matrix matrixOf) ∧
      ∀ name ∉ c.products, m.store.checkDefinable name = .ok () → m'.store.checkDefinable name = .ok () := by
  induction c generalizing m with
  | gate name => exact ⟨m, .nil, rfl, (hgates name List.mem_cons_self).1, fun _ _ h => h⟩
  | concat name left right ihleft ihright =>
    obtain ⟨hdistinct, -, hname⟩ := List.nodup_append.mp hdistinct
    obtain ⟨hleft, hright, hboth⟩ := List.nodup_append.mp hdistinct
    have hgatesLeft : ∀ g ∈ left.gates, _ := fun g hg => hgates g (List.mem_append_left _ hg)
    have hgatesRight : ∀ g ∈ right.gates, _ := fun g hg => hgates g (List.mem_append_right _ hg)
    obtain ⟨m₁, hsteps₁, hregisters₁, hresolve₁, hfree₁⟩ := ihleft hgatesLeft
      (fun other hother => hproducts other (List.mem_append_left _ (List.mem_append_left _ hother))) hleft
    -- The gates of the right factor keep their matrices while the left one is defined, and its products keep
    -- their names free, since no product of the left one has the same.
    obtain ⟨m₂, hsteps₂, hregisters₂, hresolve₂, hfree₂⟩ := ihright (m := m₁)
      (fun g hg => (hgatesRight g hg).imp hsteps₁.resolve_kept id)
      (fun other hother => hfree₁ other (fun hmem => hboth other hmem other hother rfl)
        (hproducts other (List.mem_append_left _ (List.mem_append_right _ hother)))) hright
    have hinner : (left.matrix matrixOf).cols = (right.matrix matrixOf).rows :=
      (left.shape_matrix fun g hg => (hgatesLeft g hg).2).2.trans
        (right.shape_matrix fun g hg => (hgatesRight g hg).2).1.symm
    have hkept (other : String) (hleft : other ∉ left.products) (hright : other ∉ right.products)
        (hfree : m.store.checkDefinable other = .ok ()) : m₂.store.checkDefinable other = .ok () :=
      hfree₂ other hright (hfree₁ other hleft hfree)
    have hfree : m₂.store.checkDefinable name = .ok () :=
      hkept name (fun hmem => hname name (List.mem_append_left _ hmem) name List.mem_cons_self rfl)
        (fun hmem => hname name (List.mem_append_right _ hmem) name List.mem_cons_self rfl)
        (hproducts name (List.mem_append_right _ List.mem_cons_self))
    have hlast := run_concat words m₂ (hsteps₂.resolve_kept hresolve₁) hresolve₂ hinner hfree
    refine ⟨_, (hsteps₁.append hsteps₂).append (.cons hlast .nil), hregisters₂.trans hregisters₁,
      Store.resolve_insert_self hfree, ?_⟩
    intro other hother hfreeOther
    simp only [Chain.products, List.mem_append, List.mem_singleton, not_or] at hother
    obtain ⟨⟨hleft, hright⟩, hne⟩ := hother
    have hfreeOther := Store.checkDefinable_eq_ok.mp (hkept other hleft hright hfreeOther)
    rw [Store.checkDefinable_eq_ok, NameMap.contains_insert, beq_eq_false_iff_ne.mpr hne]
    exact hfreeOther

variable [LawfulBEq K] {register : String} {v : Ket K}

/-- The product of two gates can be defined and applied, and does what the right gate and then the left one do. -/
theorem apply_product {left right name : String} {a b : Matrix K}
    (hregister : m.store.registers.find? register = some v)
    (hleft : m.store.resolve left = .ok a) (harows : a.rows = v.size) (hacols : a.cols = v.size)
    (hright : m.store.resolve right = .ok b) (hbrows : b.rows = v.size) (hbcols : b.cols = v.size)
    (hfree : m.store.checkDefinable name = .ok ()) :
    ∃ m₁ m₂ m₃ m₄,
      m.run words (.concat name left right) = (.ok none, m₁) ∧
      m₁.run words (.apply name register) = (.ok none, m₂) ∧
      m.run words (.apply right register) = (.ok none, m₃) ∧
      m₃.run words (.apply left register) = (.ok none, m₄) ∧ m₂.store.registers = m₄.store.registers := by
  have hinner : a.cols = b.rows := hacols.trans hbrows.symm
  have hsize : (b.act v).size = v.size := (Matrix.size_act b v).trans hbrows
  have hdefine := run_concat words m hleft hright hinner hfree
  have hproduct := run_apply words { m with store := { m.store with
    gates := m.store.gates.insert name (a.mul b) } } hregister (Store.resolve_insert_self hfree)
    ⟨harows.trans hbcols.symm, harows⟩
  have hfirst := run_apply words m hregister hright ⟨hbrows.trans hbcols.symm, hbrows⟩
  have hsecond := run_apply words { m with store := { m.store with
    registers := m.store.registers.insert register (b.act v) } } (NameMap.find?_insert_self _ _ _) hleft
    ⟨harows.trans hacols.symm, harows.trans hsize.symm⟩
  refine ⟨_, _, _, _, hdefine, hproduct, hfirst, hsecond, ?_⟩
  rw [NameMap.insert_insert_self, Matrix.act_mul hinner]

/-- A chain of products can be defined and applied, and does what its gates do one after the other. -/
theorem apply_chain {c : Chain} (hregister : m.store.registers.find? register = some v)
    (hgates : ∀ g ∈ c.gates, m.store.resolve g = .ok (matrixOf g) ∧
      (matrixOf g).rows = v.size ∧ (matrixOf g).cols = v.size)
    (hproducts : ∀ name ∈ c.products, m.store.checkDefinable name = .ok ()) (hdistinct : c.products.Nodup) :
    ∃ m₁ m₂ m₃,
      m.Steps words c.definitions m₁ ∧ m₁.run words (.apply c.name register) = (.ok none, m₂) ∧
      m.Steps words (c.gates.reverse.map (.apply · register)) m₃ ∧ m₂.store.registers = m₃.store.registers := by
  obtain ⟨m₁, hsteps, hregisters, hresolve, -⟩ := definitions_steps words c hgates hproducts hdistinct
  have hregister₁ : m₁.store.registers.find? register = some v := hregisters ▸ hregister
  obtain ⟨hrows, hcols⟩ := c.shape_matrix fun g hg => (hgates g hg).2
  have hproduct := run_apply words m₁ hregister₁ hresolve ⟨hrows.trans hcols.symm, hrows⟩
  refine ⟨m₁, _, _, hsteps, hproduct, apply_steps hregister fun g hg => hgates g (List.mem_reverse.mp hg), ?_⟩
  rw [c.act_matrix (fun g hg => (hgates g hg).2), hregisters]

/-- A product applied to a register does what its factors do, applied one after the other from the last to the
    first: for the product of two gates, and for any chain of products in any bracketing. -/
theorem concat_apply (words : Nat → UInt64) (m : Machine K) (register : String) (v : Ket K)
    (hregister : m.store.registers.find? register = some v) :
    (∀ left right name a b,
      m.store.resolve left = .ok a → a.rows = v.size → a.cols = v.size →
      m.store.resolve right = .ok b → b.rows = v.size → b.cols = v.size →
      m.store.checkDefinable name = .ok () →
      ∃ m₁ m₂ m₃ m₄,
        m.run words (.concat name left right) = (.ok none, m₁) ∧
        m₁.run words (.apply name register) = (.ok none, m₂) ∧
        m.run words (.apply right register) = (.ok none, m₃) ∧
        m₃.run words (.apply left register) = (.ok none, m₄) ∧
        m₂.store.registers = m₄.store.registers) ∧
    ∀ (c : Chain) (matrixOf : String → Matrix K),
      (∀ g ∈ c.gates, m.store.resolve g = .ok (matrixOf g) ∧
        (matrixOf g).rows = v.size ∧ (matrixOf g).cols = v.size) →
      (∀ name ∈ c.products, m.store.checkDefinable name = .ok ()) → c.products.Nodup →
      ∃ m₁ m₂ m₃,
        m.Steps words c.definitions m₁ ∧ m₁.run words (.apply c.name register) = (.ok none, m₂) ∧
        m.Steps words (c.gates.reverse.map (.apply · register)) m₃ ∧
        m₂.store.registers = m₃.store.registers := by
  refine ⟨fun left right name a b hleft harows hacols hright hbrows hbcols hfree => ?_,
    fun c matrixOf hgates hproducts hdistinct => ?_⟩
  · exact apply_product hregister hleft harows hacols hright hbrows hbcols hfree
  · exact apply_chain hregister hgates hproducts hdistinct

theorem concat_apply_hadamard :
    let words : Nat → UInt64 := fun _ => 0
    let m : Machine ℂ := fresh.calls words [.run (.prepare "Q" "1" none)]
    let c : Chain := .concat "V" (.gate "I2") (.concat "U" (.gate "H") (.gate "I2"))
    (∃ m₁ m₂ m₃ m₄,
      m.run words (.concat "U" "H" "I2") = (.ok none, m₁) ∧ m₁.run words (.apply "U" "Q") = (.ok none, m₂) ∧
      m.run words (.apply "I2" "Q") = (.ok none, m₃) ∧ m₃.run words (.apply "H" "Q") = (.ok none, m₄) ∧
      m₂.store.registers = m₄.store.registers) ∧
    ∃ m₁ m₂ m₃,
      m.Steps words c.definitions m₁ ∧ m₁.run words (.apply "V" "Q") = (.ok none, m₂) ∧
      m.Steps words [.apply "I2" "Q", .apply "H" "Q", .apply "I2" "Q"] m₃ ∧
      m₂.store.registers = m₃.store.registers := by
  intro words m c
  obtain ⟨hproduct, hchain⟩ := concat_apply words m "Q" (Ket.basis 2 0) rfl
  have hadamard := m.store.resolve_hadamard
  refine ⟨hproduct "H" "I2" "U" Builtin.hadamardMatrix (Matrix.identity 2 Nat.two_pos) hadamard rfl rfl rfl rfl rfl rfl,
    hchain c (fun g => if g = "H" then Builtin.hadamardMatrix else Matrix.identity 2 Nat.two_pos) ?_ ?_ (by decide)⟩
  · intro g hg
    have hg : g = "I2" ∨ g = "H" ∨ g = "I2" := by simpa [c, Chain.gates] using hg
    rcases hg with rfl | rfl | rfl
    · exact ⟨rfl, rfl, rfl⟩
    · exact ⟨hadamard, rfl, rfl⟩
    · exact ⟨rfl, rfl, rfl⟩
  · intro name hname
    have hname : name = "U" ∨ name = "V" := by simpa [c, Chain.products] using hname
    rcases hname with rfl | rfl
    · rfl
    · rfl

end Machine
end Ketscript
