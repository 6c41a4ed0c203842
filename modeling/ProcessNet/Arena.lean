/-
Arenas: sequences addressed by one kind of identifier. An item never moves, so an identifier
handed out by `push` stays valid; owners that delete keep optional items.
-/
import ProcessNet.Fault
import ProcessNet.Identifier

namespace ProcessNet

/-- A sequence of items addressed by identifiers of the kind `ι`. -/
structure Arena (ι α : Type) where
  items : List α := []
deriving DecidableEq, Repr

namespace Arena

variable {ι α : Type} [Identifier ι]

open Identifier

instance : Inhabited (Arena ι α) := ⟨{}⟩

def size (a : Arena ι α) : Nat := a.items.length

def isEmpty (a : Arena ι α) : Bool := a.items.isEmpty

/-- The identifier that the next `push` hands out. -/
def next (a : Arena ι α) : ι := ofIndex a.items.length

def push (a : Arena ι α) (x : α) : Arena ι α := ⟨a.items ++ [x]⟩

def get? (a : Arena ι α) (i : ι) : Option α := a.items[index i]?

/-- The item at `i`, which has to exist. -/
def get (a : Arena ι α) (i : ι) : Except Fault α :=
  match a.get? i with
  | some x => .ok x
  | none => .error .missingSlot

/-- Replaces the item at `i`, if there is one. -/
def set (a : Arena ι α) (i : ι) (x : α) : Arena ι α := ⟨a.items.set (index i) x⟩

/-- Changes the item at `i`, if there is one. -/
def modify (a : Arena ι α) (i : ι) (f : α → α) : Arena ι α := ⟨a.items.modify (index i) f⟩

/-- Changes the item at `i`, which has to exist. -/
def modifyAt (a : Arena ι α) (i : ι) (f : α → α) : Except Fault (Arena ι α) :=
  if index i < a.items.length then .ok (a.modify i f) else .error .missingSlot

/-- The identifiers of all items, ascending. -/
def ids (a : Arena ι α) : List ι := (List.range a.items.length).map ofIndex

/-- The items with their identifiers, ascending. -/
def entries (a : Arena ι α) : List (ι × α) := a.items.zipIdx.map fun (x, n) => (ofIndex n, x)

/-- Changes every item, with its identifier at hand. -/
def mapEntries (a : Arena ι α) (f : ι → α → α) : Arena ι α :=
  ⟨a.items.zipIdx.map fun (x, n) => f (ofIndex n) x⟩

/-! ## What each operation does to a look-up -/

theorem get?_eq_none_of_le {a : Arena ι α} {i : ι} (h : a.size ≤ index i) : a.get? i = none :=
  List.getElem?_eq_none h

theorem get?_push_next {a : Arena ι α} {x : α} : (a.push x).get? a.next = some x := by
  simp [get?, push, next]

theorem get?_push_of_ne {a : Arena ι α} {i : ι} {x : α} (h : i ≠ a.next) :
    (a.push x).get? i = a.get? i := by
  have hne : index i ≠ a.items.length := fun e => h (by simp only [next]; rw [← e, ofIndex_index])
  simp only [get?, push, List.getElem?_append]
  split
  · rfl
  · rw [List.getElem?_eq_none (by simp; omega), List.getElem?_eq_none (by omega)]

theorem get?_modify [DecidableEq ι] {a : Arena ι α} {i j : ι} {f : α → α} :
    (a.modify i f).get? j = if i = j then (a.get? j).map f else a.get? j := by
  simp only [get?, modify, List.getElem?_modify]
  by_cases h : i = j
  · simp [h]
  · simp [h, index_inj]

theorem get?_set [DecidableEq ι] {a : Arena ι α} {i j : ι} {x : α} :
    (a.set i x).get? j = if i = j then (a.get? j).map (fun _ => x) else a.get? j := by
  simp only [get?, set, List.getElem?_set]
  by_cases h : i = j
  · by_cases hl : index j < a.items.length
    · simp [h, hl]
    · simp [h, hl]
  · simp [h, index_inj]

/-! ## Identifiers of items -/

theorem index_next {a : Arena ι α} : index a.next = a.size := index_ofIndex _

theorem get?_next {a : Arena ι α} : a.get? a.next = none :=
  get?_eq_none_of_le (Nat.le_of_eq index_next.symm)

theorem lt_of_get? {a : Arena ι α} {i : ι} {x : α} (h : a.get? i = some x) : index i < a.size :=
  (List.getElem?_eq_some_iff.1 h).1

/-- Rows that are missing count as empty, so what has an entry has a row. -/
theorem lt_of_mem_row {rows : Arena ι (List α)} {i : ι} {x : α} (h : x ∈ (rows.get? i).getD []) :
    index i < rows.size := by
  refine Nat.lt_of_not_le fun hle => ?_
  rw [get?_eq_none_of_le hle] at h
  cases h

theorem ne_next_of_lt {a : Arena ι α} {i : ι} (h : index i < a.size) : i ≠ a.next := by
  rintro rfl
  rw [index_next] at h
  exact Nat.lt_irrefl _ h

theorem eq_next_iff {a : Arena ι α} {i : ι} : i = a.next ↔ index i = a.size := by
  rw [← index_inj, index_next]

theorem lt_succ_iff_next {a : Arena ι α} {i : ι} :
    index i < a.size + 1 ↔ index i < a.size ∨ i = a.next := by
  rw [eq_next_iff, Nat.lt_succ_iff_lt_or_eq]

theorem mem_ids {a : Arena ι α} {i : ι} : i ∈ a.ids ↔ index i < a.size := by
  rw [ids, List.mem_map]
  constructor
  · rintro ⟨k, hk, rfl⟩
    rw [index_ofIndex]
    exact List.mem_range.1 hk
  · exact fun hi => ⟨index i, List.mem_range.2 hi, ofIndex_index i⟩

theorem ascending_ids (a : Arena ι α) : Ascending a.ids := by
  refine List.pairwise_map.2 (List.pairwise_lt_range.imp fun {j k} hlt => ?_)
  rwa [index_ofIndex, index_ofIndex]

theorem length_ids (a : Arena ι α) : a.ids.length = a.size := by
  rw [ids, List.length_map, List.length_range, size]

theorem map_fst_entries (a : Arena ι α) : a.entries.map (·.1) = a.ids := by
  rw [entries, List.map_map, ids, List.range_eq_range', ← List.zipIdx_map_snd 0 a.items, List.map_map]
  rfl

omit [Identifier ι] in
@[simp] theorem size_push {a : Arena ι α} {x : α} : (a.push x).size = a.size + 1 := by
  simp [size, push]

@[simp] theorem size_set {a : Arena ι α} {i : ι} {x : α} : (a.set i x).size = a.size := by
  simp [size, set]

@[simp] theorem size_modify {a : Arena ι α} {i : ι} {f : α → α} :
    (a.modify i f).size = a.size := by
  simp [size, modify]

end Arena

end ProcessNet
