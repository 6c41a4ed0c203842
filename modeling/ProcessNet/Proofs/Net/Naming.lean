/-
What a name index holds. The index of a net leads from the name of each live node to that node and has
no more entries than there are live nodes; so its entries are these names with these nodes, in some
order, and no name comes twice.
-/
import Mathlib.Data.List.Perm.Subperm
import ProcessNet.Proofs.Net.Consistent

namespace ProcessNet.NameIndex

open Identifier

variable {ι α : Type} [Identifier ι] {x : NameIndex ι} {slots : Arena ι (Option α)}
  {name : α → String} {i : ι} {s : String}

/-- The names of the items in use with their identifiers. -/
def named (slots : Arena ι (Option α)) (name : α → String) : List (String × ι) :=
  slots.entries.filterMap fun (i, slot) => slot.map fun a => (name a, i)

theorem mem_named : (s, i) ∈ named slots name ↔ ∃ a, slots.get? i = some (some a) ∧ name a = s := by
  rw [named, List.mem_filterMap]
  constructor
  · rintro ⟨⟨j, slot⟩, hmem, he⟩
    obtain ⟨a, rfl, ha⟩ := Option.map_eq_some_iff.1 he
    cases ha
    exact ⟨a, Arena.mem_entries.1 hmem, rfl⟩
  · rintro ⟨a, ha, rfl⟩
    exact ⟨(i, some a), Arena.mem_entries.2 ha, rfl⟩

theorem nodup_named : ((named slots name).map (·.2)).Nodup := by
  have hlive := slots.nodup_live
  rw [named, List.map_filterMap]
  rw [List.map_filterMap] at hlive
  refine (List.filterMap_congr fun e _ => ?_) ▸ hlive
  obtain ⟨j, slot⟩ := e
  cases slot <;> rfl

omit [Identifier ι] in
theorem mem_of_find? (h : x.find? s = some i) : (s, i) ∈ x.entries := by
  obtain ⟨l, r, hlr, _⟩ := List.lookup_eq_some_iff.1 h
  rw [hlr]
  exact List.mem_append_right l List.mem_cons_self

/-- The entries are the names of the items in use. -/
theorem Indexes.perm (h : x.Indexes slots name) : x.entries.Perm (named slots name) := by
  have hsub : named slots name ⊆ x.entries := by
    rintro ⟨s, i⟩ hmem
    obtain ⟨a, ha, rfl⟩ := mem_named.1 hmem
    exact mem_of_find? (h.find i a ha)
  have hlength : x.entries.length = (named slots name).length :=
    h.size.trans (Arena.length_filterMap_entries slots fun i a => (name a, i)).symm
  have hnodup : (named slots name).Nodup := .of_map _ nodup_named
  exact ((hnodup.subperm hsub).perm_of_length_le hlength.le).symm

/-- No name comes twice. -/
theorem Indexes.nodup (h : x.Indexes slots name) : (x.entries.map (·.1)).Nodup := by
  rw [(h.perm.map _).nodup_iff]
  refine List.pairwise_map.2 ((List.pairwise_map.1 nodup_named).imp_of_mem ?_)
  rintro ⟨s, i⟩ ⟨s', j⟩ hi hj hne rfl
  obtain ⟨a, ha, rfl⟩ := mem_named.1 hi
  obtain ⟨b, hb, hab⟩ := mem_named.1 hj
  have hfind := h.find j b hb
  rw [hab, h.find i a ha] at hfind
  exact hne (Option.some.inj hfind)

/-- A name leads to the item in use that bears it, and to nothing else. -/
theorem Indexes.find?_iff (h : x.Indexes slots name) :
    x.find? s = some i ↔ ∃ a, slots.get? i = some (some a) ∧ name a = s := by
  constructor
  · exact fun hfind => mem_named.1 (h.perm.mem_iff.1 (mem_of_find? hfind))
  · rintro ⟨a, ha, rfl⟩
    exact h.find i a ha

end ProcessNet.NameIndex
