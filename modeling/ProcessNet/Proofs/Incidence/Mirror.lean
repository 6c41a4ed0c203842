/-
Rows that mirror the arcs: removing arcs always succeeds there, one by one or all those of a node,
and the comparison of rows and arcs finds no disagreement exactly when they mirror each other.
-/
import Mathlib.Algebra.BigOperators.Group.Finset.Piecewise
import Mathlib.Algebra.Order.BigOperators.Group.Finset
import Mathlib.Data.List.Perm.Subperm
import ProcessNet.Incidence.Lemmas

namespace ProcessNet.Incidence

open Identifier

/-! ## Removing arcs -/

/-- `inc'` is `inc` without the arcs in `gone`. -/
structure Thinned (inc : Incidence) (gone : List Arc) (inc' : Incidence) : Prop where
  mirrored : inc'.Mirrored
  mem_arcs : ∀ b, b ∈ inc'.arcs ↔ b ∈ inc.arcs ∧ b ∉ gone
  placeRows : inc'.byPlace.size = inc.byPlace.size
  transitionRows : inc'.byTransition.size = inc.byTransition.size

theorem Mirrored.exists_erase {inc : Incidence} (h : inc.Mirrored) (a : Arc) :
    ∃ inc' found, inc.erase a = .ok (inc', found) ∧ Thinned inc [a] inc' := by
  by_cases ha : a ∈ inc.arcs
  · have hok := erase_eq_ok_true_iff.2 ⟨ha, h.place_lt ha, h.transition_lt ha, rfl⟩
    refine ⟨_, _, hok, h.erase hok, fun b => ?_, by simp, by simp⟩
    rw [mem_erase h.nodup hok, List.mem_singleton, and_comm]
  · have hok := erase_eq_ok_false_iff.2 ⟨ha, rfl⟩
    refine ⟨_, _, hok, h, fun b => ?_, rfl, rfl⟩
    rw [List.mem_singleton, iff_self_and]
    exact fun hb he => ha (he ▸ hb)

theorem Mirrored.exists_eraseAll {inc : Incidence} (h : inc.Mirrored) (l : List Arc) :
    ∃ inc', inc.eraseAll l = .ok inc' ∧ Thinned inc l inc' := by
  induction l generalizing inc with
  | nil => exact ⟨inc, rfl, h, by simp, rfl, rfl⟩
  | cons a l ih =>
    obtain ⟨inc₁, found, he, h₁⟩ := h.exists_erase a
    obtain ⟨inc₂, hl, h₂⟩ := ih h₁.mirrored
    refine ⟨inc₂, ?_, h₂.mirrored, fun b => ?_, h₂.placeRows.trans h₁.placeRows,
      h₂.transitionRows.trans h₁.transitionRows⟩
    · rw [eraseAll, List.foldlM_cons, he]
      exact hl
    · rw [h₂.mem_arcs, h₁.mem_arcs, List.mem_singleton, List.mem_cons, not_or, and_assoc]

/-- `detachPlace` removes the arcs at a place. -/
theorem Mirrored.exists_detachPlace {inc : Incidence} (h : inc.Mirrored) (p : PlaceId) :
    ∃ inc' l, inc.detachPlace p = .ok (inc', l) ∧ inc'.Mirrored ∧
      (∀ b, b ∈ inc'.arcs ↔ b ∈ inc.arcs ∧ b.place ≠ p) ∧
      inc'.byPlace.size = inc.byPlace.size ∧ inc'.byTransition.size = inc.byTransition.size := by
  obtain ⟨inc', hok, ht⟩ := h.exists_eraseAll ((inc.placeArcs p).map fun e => ⟨p, e.1, e.2⟩)
  refine ⟨inc', _, by rw [detachPlace, hok]; rfl, ht.mirrored, fun b => ?_, ht.placeRows,
    ht.transitionRows⟩
  rw [ht.mem_arcs]
  refine and_congr_right fun hb => not_congr ?_
  rw [List.mem_map]
  constructor
  · rintro ⟨e, _, rfl⟩
    rfl
  · rintro rfl
    exact ⟨(b.transition, b.kind), h.mem_placeArcs.2 hb, rfl⟩

/-- `detachTransition` removes the arcs at a transition. -/
theorem Mirrored.exists_detachTransition {inc : Incidence} (h : inc.Mirrored)
    (t : TransitionId) :
    ∃ inc' l, inc.detachTransition t = .ok (inc', l) ∧ inc'.Mirrored ∧
      (∀ b, b ∈ inc'.arcs ↔ b ∈ inc.arcs ∧ b.transition ≠ t) ∧
      inc'.byPlace.size = inc.byPlace.size ∧ inc'.byTransition.size = inc.byTransition.size := by
  obtain ⟨inc', hok, ht⟩ := h.exists_eraseAll ((inc.transitionArcs t).map fun e => ⟨e.1, t, e.2⟩)
  refine ⟨inc', _, by rw [detachTransition, hok]; rfl, ht.mirrored, fun b => ?_, ht.placeRows,
    ht.transitionRows⟩
  rw [ht.mem_arcs]
  refine and_congr_right fun hb => not_congr ?_
  rw [List.mem_map]
  constructor
  · rintro ⟨e, _, rfl⟩
    rfl
  · rintro rfl
    exact ⟨(b.place, b.kind), h.mem_transitionArcs.2 hb, rfl⟩

/-! ## The comparison of rows and arcs -/

open Finset in
theorem length_flatten_eq_sum {α : Type} (rows : List (List α)) :
    rows.flatten.length = ∑ i ∈ range rows.length, (rows[i]?.getD []).length := by
  induction rows with
  | nil => rfl
  | cons row rows ih =>
    rw [List.flatten_cons, List.length_append, List.length_cons, sum_range_succ', ih, Nat.add_comm]
    simp

open Finset in
/-- The numbers of members with key `0`, `1`, … add up to the number of all members. -/
theorem sum_length_filter {α : Type} {l : List α} {key : α → Nat} {n : Nat}
    (h : ∀ a ∈ l, key a < n) : ∑ i ∈ range n, (l.filter (key · = i)).length = l.length := by
  induction l with
  | nil => simp
  | cons a l ih =>
    have hsplit : ∀ i, ((a :: l).filter (key · = i)).length
        = (l.filter (key · = i)).length + if key a = i then 1 else 0 := by
      intro i
      by_cases hi : key a = i <;> simp [hi]
    have ha : key a ∈ range n := mem_range.2 (h a List.mem_cons_self)
    rw [sum_congr rfl fun i _ => hsplit i, sum_add_distrib,
      ih fun b hb => h b (List.mem_cons_of_mem _ hb), sum_ite_eq, if_pos ha, List.length_cons]

open Finset in
/-- Rows that each contain what is wanted of them, without repetition, and hold no more entries in
total, hold just that. -/
theorem perm_of_length_flatten {α : Type} {r : List (List α)} {w : Nat → List α}
    (hsub : ∀ i, w i ⊆ r[i]?.getD []) (hnodup : ∀ i, (w i).Nodup)
    (hsum : r.flatten.length = ∑ i ∈ range r.length, (w i).length) (i : Nat) :
    (r[i]?.getD []).Perm (w i) := by
  have hle : ∀ j, (w j).Subperm (r[j]?.getD []) := fun j => (hnodup j).subperm (hsub j)
  by_cases hi : i < r.length
  · have hall := (sum_eq_sum_iff_of_le fun j _ => (hle j).length_le).1
      (hsum.symm.trans (length_flatten_eq_sum r))
    exact ((hle i).perm_of_length_le (hall i (mem_range.2 hi)).ge).symm
  · have hnone : r[i]?.getD [] = [] := by simp [hi]
    have hnil : w i = [] := List.subset_nil.1 (hnone ▸ hsub i)
    rw [hnone, hnil]

theorem rowMismatchAt?_eq_none_iff {inc : Incidence} {a : Arc} :
    inc.rowMismatchAt? a = none ↔ (a.transition, a.kind) ∈ inc.placeArcs a.place ∧
      (a.place, a.kind) ∈ inc.transitionArcs a.transition := by
  simp only [rowMismatchAt?, List.contains_iff_mem]
  split
  · split <;> simp_all
  · simp_all

theorem rowMismatch?_eq_none_iff {inc : Incidence} :
    inc.rowMismatch? = none ↔
      (∀ a ∈ inc.arcs, (a.transition, a.kind) ∈ inc.placeArcs a.place ∧
        (a.place, a.kind) ∈ inc.transitionArcs a.transition) ∧
      inc.byPlace.items.flatten.length = inc.arcs.length ∧
      inc.byTransition.items.flatten.length = inc.arcs.length := by
  simp only [rowMismatch?]
  cases hf : inc.arcs.findSome? inc.rowMismatchAt? with
  | some m =>
    obtain ⟨a, ha, hm⟩ := List.exists_of_findSome?_eq_some hf
    simp only [reduceCtorEq, false_iff, not_and]
    intro hall
    rw [rowMismatchAt?_eq_none_iff.2 (hall a ha)] at hm
    cases hm
  | none =>
    have hall : ∀ a ∈ inc.arcs, _ := fun a ha =>
      rowMismatchAt?_eq_none_iff.1 (List.findSome?_eq_none_iff.1 hf a ha)
    constructor
    · intro h
      refine ⟨hall, Decidable.byContradiction fun htotals => ?_⟩
      exact Option.some_ne_none _ ((if_neg htotals).symm.trans h)
    · exact fun h => if_pos h.2

theorem filter_index_eq {ι : Type} [Identifier ι] [DecidableEq ι] (arcs : List Arc) (node : Arc → ι)
    (j : Nat) : arcs.filter (fun a => index (node a) = j) = arcs.filter (node · = ofIndex j) := by
  refine List.filter_congr fun a _ => ?_
  rw [decide_eq_decide]
  exact ⟨fun h => by rw [← h, ofIndex_index], fun h => by rw [h, index_ofIndex]⟩

/-- Rows that list the arcs of their nodes hold as many entries as there are arcs. -/
theorem length_flatten_rows {ι β : Type} [Identifier ι] [DecidableEq ι] {arcs : List Arc}
    {rows : Arena ι (List β)} {node : Arc → ι} {entry : Arc → β}
    (hlt : ∀ a ∈ arcs, index (node a) < rows.size)
    (hrow : ∀ i, ((rows.get? i).getD []).Perm ((arcs.filter (node · = i)).map entry)) :
    rows.items.flatten.length = arcs.length := by
  rw [length_flatten_eq_sum, ← sum_length_filter hlt]
  refine Finset.sum_congr rfl fun j _ => ?_
  have hlen := (hrow (ofIndex j)).length_eq
  rw [List.length_map, Arena.get?, index_ofIndex] at hlen
  rw [hlen, filter_index_eq]

/-- If each arc has its entry in the row of its node, and the rows hold as many entries as there are
arcs, each row lists the arcs of its node. -/
theorem perm_row {ι β : Type} [Identifier ι] [DecidableEq ι] {arcs : List Arc}
    {rows : Arena ι (List β)} {node : Arc → ι} {entry : Arc → β} (hnodup : arcs.Nodup)
    (hinj : ∀ a b, node a = node b → entry a = entry b → a = b)
    (hmem : ∀ a ∈ arcs, entry a ∈ (rows.get? (node a)).getD [])
    (hlen : rows.items.flatten.length = arcs.length) (i : ι) :
    ((rows.get? i).getD []).Perm ((arcs.filter (node · = i)).map entry) := by
  have hlt : ∀ a ∈ arcs, index (node a) < rows.items.length := fun a ha =>
    Arena.lt_of_mem_row (hmem a ha)
  have hperm := perm_of_length_flatten (r := rows.items)
    (w := fun j => (arcs.filter (node · = ofIndex j)).map entry) ?_ ?_ ?_ (index i)
  · simp only [ofIndex_index] at hperm
    exact hperm
  · intro j e he
    obtain ⟨a, ha, rfl⟩ := List.mem_map.1 he
    obtain ⟨ha, hj⟩ := List.mem_filter.1 ha
    have hrow := hmem a ha
    rw [of_decide_eq_true hj, Arena.get?, index_ofIndex] at hrow
    exact hrow
  · refine fun j => List.Nodup.map_on (fun a ha b hb he => hinj a b ?_ he) (hnodup.filter _)
    rw [of_decide_eq_true (List.mem_filter.1 ha).2, of_decide_eq_true (List.mem_filter.1 hb).2]
  · rw [hlen, ← sum_length_filter hlt]
    exact Finset.sum_congr rfl fun j _ => by rw [List.length_map, filter_index_eq]

/-- Rows and arcs mirror each other exactly when `rowMismatch?` finds no disagreement. -/
theorem mirrored_iff_rowMismatch? {inc : Incidence} (hnodup : inc.arcs.Nodup) :
    inc.Mirrored ↔ inc.rowMismatch? = none := by
  rw [rowMismatch?_eq_none_iff]
  constructor
  · intro h
    exact ⟨fun a ha => ⟨h.mem_placeArcs.2 ha, h.mem_transitionArcs.2 ha⟩,
      length_flatten_rows (fun _ ha => h.place_lt ha) h.place,
      length_flatten_rows (fun _ ha => h.transition_lt ha) h.transition⟩
  · rintro ⟨hrows, hplaces, htransitions⟩
    refine ⟨hnodup, perm_row hnodup ?_ (fun a ha => (hrows a ha).1) hplaces,
      perm_row hnodup ?_ (fun a ha => (hrows a ha).2) htransitions⟩
    · rintro ⟨p, t, k⟩ ⟨q, u, l⟩ hn he
      simp_all
    · rintro ⟨p, t, k⟩ ⟨q, u, l⟩ hn he
      simp_all

end ProcessNet.Incidence
