/-! Finite maps from names. The entries are kept in the order of their names, so equal maps are equal as
    values, however they came about. -/

namespace Ketscript

/-- A map from names, its entries in ascending order. -/
@[ext] structure NameMap (α : Type) where
  entries : List (String × α)
  sorted : entries.Pairwise fun a b => a.1 < b.1

namespace NameMap
variable {α : Type}

def empty : NameMap α := ⟨[], .nil⟩

instance : EmptyCollection (NameMap α) := ⟨empty⟩

def find? (m : NameMap α) (name : String) : Option α := m.entries.lookup name

def contains (m : NameMap α) (name : String) : Bool := (m.find? name).isSome

def names (m : NameMap α) : List String := m.entries.map (·.1)

/-- The entries with a new value for a name, at the place where its name belongs. -/
def insertEntry (name : String) (x : α) : List (String × α) → List (String × α)
  | [] => [(name, x)]
  | entry :: rest =>
    if name < entry.1 then (name, x) :: entry :: rest
    else if entry.1 < name then entry :: insertEntry name x rest
    else (name, x) :: rest

theorem mem_insertEntry {name : String} {x : α} {l : List (String × α)} {e : String × α}
    (h : e ∈ insertEntry name x l) : e = (name, x) ∨ e ∈ l := by
  induction l with
  | nil => simpa [insertEntry] using h
  | cons entry rest ih =>
    unfold insertEntry at h
    split at h
    · simpa using h
    · split at h
      · rcases List.mem_cons.mp h with h | h
        · exact .inr (h ▸ List.mem_cons_self)
        · exact (ih h).imp id (List.mem_cons_of_mem _)
      · rcases List.mem_cons.mp h with h | h
        · exact .inl h
        · exact .inr (List.mem_cons_of_mem _ h)

theorem sorted_insertEntry {name : String} {x : α} {l : List (String × α)}
    (h : l.Pairwise fun a b => a.1 < b.1) : (insertEntry name x l).Pairwise fun a b => a.1 < b.1 := by
  induction l with
  | nil => simp [insertEntry]
  | cons entry rest ih =>
    have hentry := (List.pairwise_cons.mp h).1
    have hrest := (List.pairwise_cons.mp h).2
    unfold insertEntry
    split
    · rename_i hlt
      refine List.pairwise_cons.mpr ⟨fun e he => ?_, h⟩
      rcases List.mem_cons.mp he with rfl | he
      · exact hlt
      · exact String.lt_trans hlt (hentry e he)
    · rename_i hge
      split
      · rename_i hlt
        refine List.pairwise_cons.mpr ⟨fun e he => ?_, ih hrest⟩
        rcases mem_insertEntry he with rfl | he
        · exact hlt
        · exact hentry e he
      · rename_i hge'
        have heq : entry.1 = name :=
          String.le_antisymm (String.not_lt.mp hge) (String.not_lt.mp hge')
        exact List.pairwise_cons.mpr ⟨fun e he => heq ▸ hentry e he, hrest⟩

def insert (m : NameMap α) (name : String) (x : α) : NameMap α :=
  ⟨insertEntry name x m.entries, sorted_insertEntry m.sorted⟩

theorem lookup_insertEntry_self (name : String) (x : α) (l : List (String × α)) :
    (insertEntry name x l).lookup name = some x := by
  induction l with
  | nil => simp [insertEntry]
  | cons entry rest ih =>
    unfold insertEntry
    split
    · simp
    · split
      · rename_i hlt
        have hne : (name == entry.1) = false := by
          simp only [beq_eq_false_iff_ne, ne_eq]
          rintro rfl
          exact String.lt_irrefl _ hlt
        rw [List.lookup_cons, hne]
        exact ih
      · simp

theorem lookup_insertEntry_of_ne {name other : String} (h : other ≠ name) (x : α) (l : List (String × α)) :
    (insertEntry name x l).lookup other = l.lookup other := by
  have hne : (other == name) = false := by simpa using h
  induction l with
  | nil => simp [insertEntry, List.lookup_cons, hne]
  | cons entry rest ih =>
    unfold insertEntry
    split
    · simp [List.lookup_cons, hne]
    · split
      · rw [List.lookup_cons, List.lookup_cons, ih]
      · rename_i hge hge'
        have heq : entry.1 = name :=
          String.le_antisymm (String.not_lt.mp hge) (String.not_lt.mp hge')
        rw [List.lookup_cons, List.lookup_cons, heq, hne]

theorem find?_insert_self (m : NameMap α) (name : String) (x : α) : (m.insert name x).find? name = some x :=
  lookup_insertEntry_self name x m.entries

theorem find?_insert_of_ne (m : NameMap α) {name other : String} (h : other ≠ name) (x : α) :
    (m.insert name x).find? other = m.find? other :=
  lookup_insertEntry_of_ne h x m.entries

theorem find?_empty (name : String) : (∅ : NameMap α).find? name = none := rfl

end NameMap
end Ketscript
