import Ketscript.Machine.NameMap

/-! Name maps are determined by their values: a name stands in a map once, and maps that give every name
    the same value are equal. So inserting a value that is there already, or two values in either order,
    leads to the same map. -/

namespace Ketscript.NameMap
variable {α : Type} {m : NameMap α} {name other : String} {x y : α}

theorem find?_insert (m : NameMap α) (name other : String) (x : α) :
    (m.insert name x).find? other = if other = name then some x else m.find? other := by
  by_cases h : other = name
  · rw [if_pos h, h, find?_insert_self]
  · rw [if_neg h, find?_insert_of_ne m h]

theorem find?_insert_eq_some : (m.insert name x).find? other = some y ↔
    (other = name ∧ x = y) ∨ (other ≠ name ∧ m.find? other = some y) := by
  rw [find?_insert]
  by_cases h : other = name <;> simp [h]

theorem contains_iff : m.contains name = true ↔ ∃ x, m.find? name = some x := Option.isSome_iff_exists

theorem contains_of_find? (h : m.find? name = some x) : m.contains name = true := contains_iff.mpr ⟨x, h⟩

theorem contains_insert (m : NameMap α) (name other : String) (x : α) :
    (m.insert name x).contains other = (other == name || m.contains other) := by
  unfold contains
  rw [find?_insert]
  by_cases h : other = name <;> simp [h]

theorem contains_insert_iff :
    (m.insert name x).contains other = true ↔ other = name ∨ m.contains other = true := by
  rw [contains_insert, Bool.or_eq_true, beq_iff_eq]

theorem contains_empty (name : String) : (∅ : NameMap α).contains name = false := rfl

/-! ### Equality -/

theorem lookup_of_mem {l : List (String × α)} (hl : l.Pairwise fun a b => a.1 < b.1) (h : (name, x) ∈ l) :
    l.lookup name = some x := by
  induction l with
  | nil => cases h
  | cons entry rest ih =>
    obtain ⟨hentry, hrest⟩ := List.pairwise_cons.mp hl
    rcases List.mem_cons.mp h with rfl | h
    · simp
    · have hne : (name == entry.1) = false := by
        rw [beq_eq_false_iff_ne]
        rintro rfl
        exact String.lt_irrefl entry.1 (hentry (entry.1, x) h)
      rw [List.lookup_cons, hne]
      exact ih hrest h

theorem mem_entries_iff : (name, x) ∈ m.entries ↔ m.find? name = some x := by
  refine ⟨lookup_of_mem m.sorted, fun h => ?_⟩
  obtain ⟨before, after, heq, -⟩ := List.lookup_eq_some_iff.mp h
  rw [heq]
  exact List.mem_append_right before List.mem_cons_self

theorem nodup_entries (m : NameMap α) : m.entries.Nodup := by
  apply m.sorted.imp
  intro a b h heq
  exact String.lt_irrefl b.1 (heq ▸ h)

/-- Maps with the same value for every name are equal. -/
theorem ext_find? {a b : NameMap α} (h : ∀ name, a.find? name = b.find? name) : a = b := by
  have hperm : a.entries.Perm b.entries := by
    rw [List.perm_ext_iff_of_nodup a.nodup_entries b.nodup_entries]
    rintro ⟨name, x⟩
    rw [mem_entries_iff, mem_entries_iff, h]
  refine NameMap.ext (hperm.eq_of_pairwise (fun p q _ _ hpq hqp => ?_) a.sorted b.sorted)
  exact absurd (String.lt_trans hpq hqp) (String.lt_irrefl _)

theorem insert_insert_self (m : NameMap α) (name : String) (x y : α) :
    (m.insert name x).insert name y = m.insert name y :=
  ext_find? fun other => by
    simp only [find?_insert]
    split <;> rfl

theorem insert_comm (m : NameMap α) (h : name ≠ other) (x y : α) :
    (m.insert name x).insert other y = (m.insert other y).insert name x :=
  ext_find? fun n => by
    simp only [find?_insert]
    by_cases hn : n = name
    · simp [hn, h]
    · simp [hn]

theorem insert_eq_self (h : m.find? name = some x) : m.insert name x = m :=
  ext_find? fun other => by
    rw [find?_insert]
    by_cases ho : other = name
    · rw [if_pos ho, ho, h]
    · rw [if_neg ho]

end Ketscript.NameMap
