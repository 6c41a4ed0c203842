/-
What inserting and erasing an arc do to the set of arcs and to the rows, and that the rows keep
listing the arcs of their node in order.
-/
import ProcessNet.Incidence

namespace ProcessNet

namespace Arena

variable {ι α : Type} [Identifier ι] [DecidableEq ι]

/-- The row of one node after the row of another one, or its own, was changed. -/
theorem getD_modify {a : Arena ι (List α)} {i j : ι} {f : List α → List α}
    (h : Identifier.index i < a.size) :
    ((a.modify i f).get? j).getD [] = if i = j then f ((a.get? j).getD [])
      else (a.get? j).getD [] := by
  rw [get?_modify]
  split
  · rename_i hij
    subst hij
    obtain ⟨x, hx⟩ : ∃ x, a.get? i = some x := ⟨_, List.getElem?_eq_getElem h⟩
    rw [hx, Option.map_some, Option.getD_some, Option.getD_some]
  · rfl

end Arena

namespace Incidence

open Identifier

/-! ## Inserting -/

/-- A new arc comes behind all others and at the end of the rows of its two ends. -/
theorem insert_eq_ok_true_iff {inc inc' : Incidence} {a : Arc} :
    inc.insert a = .ok (inc', true) ↔ a ∉ inc.arcs ∧ index a.place < inc.byPlace.size ∧
      index a.transition < inc.byTransition.size ∧ inc' = {
        arcs := inc.arcs ++ [a]
        byPlace := inc.byPlace.modify a.place (· ++ [(a.transition, a.kind)])
        byTransition := inc.byTransition.modify a.transition (· ++ [(a.place, a.kind)]) } := by
  simp only [insert, contains, List.contains_iff_mem, Arena.modifyAt, Arena.size, bind, Except.bind,
    pure, Except.pure]
  split
  · rename_i h
    simp [h]
  · rename_i h
    by_cases hp : index a.place < inc.byPlace.items.length
    · by_cases ht : index a.transition < inc.byTransition.items.length
      · simp [h, hp, ht, eq_comm]
      · simp [h, hp, ht]
    · simp [h, hp]

/-- An arc that is there already changes nothing. -/
theorem insert_eq_ok_false_iff {inc inc' : Incidence} {a : Arc} :
    inc.insert a = .ok (inc', false) ↔ a ∈ inc.arcs ∧ inc' = inc := by
  simp only [insert, contains, List.contains_iff_mem, bind, Except.bind]
  split
  · rename_i h
    simp [h, eq_comm]
  · rename_i h
    simp only [h, false_and, iff_false]
    intro hok
    split at hok
    · cases hok
    · split at hok <;> cases hok

theorem mem_insert {inc inc' : Incidence} {a b : Arc} {new : Bool}
    (h : inc.insert a = .ok (inc', new)) : b ∈ inc'.arcs ↔ b = a ∨ b ∈ inc.arcs := by
  cases new with
  | true =>
    obtain ⟨_, _, _, rfl⟩ := insert_eq_ok_true_iff.1 h
    simp [or_comm]
  | false =>
    obtain ⟨hmem, rfl⟩ := insert_eq_ok_false_iff.1 h
    exact ⟨.inr, fun hb => hb.elim (fun e => e ▸ hmem) id⟩

theorem nodup_insert {inc inc' : Incidence} {a : Arc} {new : Bool} (hnodup : inc.arcs.Nodup)
    (h : inc.insert a = .ok (inc', new)) : inc'.arcs.Nodup := by
  cases new with
  | true =>
    obtain ⟨hmem, _, _, rfl⟩ := insert_eq_ok_true_iff.1 h
    exact List.nodup_append.2
      ⟨hnodup, by simp, fun x hx y hy => by
        rw [List.mem_singleton.1 hy]
        exact fun e => hmem (e ▸ hx)⟩
  | false => exact (insert_eq_ok_false_iff.1 h).2 ▸ hnodup

/-! ## Erasing -/

/-- An arc that is there leaves the arcs and the rows of its two ends. -/
theorem erase_eq_ok_true_iff {inc inc' : Incidence} {a : Arc} :
    inc.erase a = .ok (inc', true) ↔ a ∈ inc.arcs ∧ index a.place < inc.byPlace.size ∧
      index a.transition < inc.byTransition.size ∧ inc' = {
        arcs := inc.arcs.erase a
        byPlace := inc.byPlace.modify a.place (·.filter (· ≠ (a.transition, a.kind)))
        byTransition :=
          inc.byTransition.modify a.transition (·.filter (· ≠ (a.place, a.kind))) } := by
  simp only [erase, contains, List.contains_iff_mem, Arena.modifyAt, Arena.size, bind, Except.bind,
    pure, Except.pure]
  split
  · rename_i h
    by_cases hp : index a.place < inc.byPlace.items.length
    · by_cases ht : index a.transition < inc.byTransition.items.length
      · simp [h, hp, ht, eq_comm]
      · simp [h, hp, ht]
    · simp [h, hp]
  · rename_i h
    simp [h]

/-- An arc that is not there cannot be erased, and nothing changes. -/
theorem erase_eq_ok_false_iff {inc inc' : Incidence} {a : Arc} :
    inc.erase a = .ok (inc', false) ↔ a ∉ inc.arcs ∧ inc' = inc := by
  simp only [erase, contains, List.contains_iff_mem, bind, Except.bind]
  split
  · rename_i h
    simp only [h, not_true_eq_false, false_and, iff_false]
    intro hok
    split at hok
    · cases hok
    · split at hok <;> cases hok
  · rename_i h
    simp [h, eq_comm]

theorem mem_erase {inc inc' : Incidence} {a b : Arc} {found : Bool} (hnodup : inc.arcs.Nodup)
    (h : inc.erase a = .ok (inc', found)) : b ∈ inc'.arcs ↔ b ≠ a ∧ b ∈ inc.arcs := by
  cases found with
  | true =>
    obtain ⟨_, _, _, rfl⟩ := erase_eq_ok_true_iff.1 h
    exact hnodup.mem_erase_iff
  | false =>
    obtain ⟨hmem, rfl⟩ := erase_eq_ok_false_iff.1 h
    exact ⟨fun hb => ⟨fun e => hmem (e ▸ hb), hb⟩, And.right⟩

/-! ## Rows -/

/-- Every row lists the arcs of its node in their order, and no arc lies at a node without a row. -/
structure Aligned (inc : Incidence) : Prop where
  nodup : inc.arcs.Nodup
  place : ∀ p, inc.placeArcs p = (inc.arcs.filter (·.place = p)).map fun a => (a.transition, a.kind)
  transition : ∀ t,
    inc.transitionArcs t = (inc.arcs.filter (·.transition = t)).map fun a => (a.place, a.kind)

theorem aligned_empty : Aligned {} :=
  ⟨.nil, fun _ => rfl, fun _ => rfl⟩

theorem Aligned.insert {inc inc' : Incidence} {a : Arc} {new : Bool} (h : inc.Aligned)
    (hok : inc.insert a = .ok (inc', new)) : inc'.Aligned := by
  cases new with
  | false => exact (insert_eq_ok_false_iff.1 hok).2 ▸ h
  | true =>
    have hnodup := nodup_insert h.nodup hok
    obtain ⟨_, hp, ht, rfl⟩ := insert_eq_ok_true_iff.1 hok
    refine ⟨hnodup, fun p => ?_, fun t => ?_⟩
    · have hrow := h.place p
      simp only [placeArcs] at hrow ⊢
      rw [Arena.getD_modify hp, hrow, List.filter_append, List.map_append]
      by_cases hap : a.place = p <;> simp [hap]
    · have hrow := h.transition t
      simp only [transitionArcs] at hrow ⊢
      rw [Arena.getD_modify ht, hrow, List.filter_append, List.map_append]
      by_cases hat : a.transition = t <;> simp [hat]

/-- Filtering a row for all but one entry is filtering the arcs for all but one arc. -/
theorem filter_map_eq {α : Type} [DecidableEq α] (key : Arc → α) {l : List Arc}
    {keep : Arc → Bool} {a : Arc} (hnodup : l.Nodup) (hkeep : keep a)
    (hkey : ∀ b, keep b → key b = key a → b = a) :
    ((l.filter keep).map key).filter (· ≠ key a) = ((l.erase a).filter keep).map key := by
  rw [hnodup.erase_eq_filter, List.filter_map, List.filter_filter, List.filter_filter]
  refine congrArg _ (List.filter_congr fun b _ => ?_)
  by_cases hb : b = a
  · subst hb
    simp
  · by_cases hk : keep b
    · simp [hk, hb, mt (hkey b hk) hb]
    · simp [hk]

theorem Aligned.erase {inc inc' : Incidence} {a : Arc} {found : Bool} (h : inc.Aligned)
    (hok : inc.erase a = .ok (inc', found)) : inc'.Aligned := by
  cases found with
  | false => exact (erase_eq_ok_false_iff.1 hok).2 ▸ h
  | true =>
    obtain ⟨_, hp, ht, rfl⟩ := erase_eq_ok_true_iff.1 hok
    refine ⟨h.nodup.erase a, fun p => ?_, fun t => ?_⟩
    · have hrow := h.place p
      simp only [placeArcs] at hrow ⊢
      rw [Arena.getD_modify hp, hrow]
      split
      · rename_i hap
        refine filter_map_eq (fun b => (b.transition, b.kind)) h.nodup (by simp [hap]) ?_
        intro b hb he
        cases a
        cases b
        simp_all
      · rename_i hap
        rw [h.nodup.erase_eq_filter, List.filter_filter]
        refine congrArg _ (List.filter_congr fun b _ => ?_)
        by_cases hb : b.place = p
        · have : b ≠ a := fun e => hap (e ▸ hb)
          simp [hb, this]
        · simp [hb]
    · have hrow := h.transition t
      simp only [transitionArcs] at hrow ⊢
      rw [Arena.getD_modify ht, hrow]
      split
      · rename_i hat
        refine filter_map_eq (fun b => (b.place, b.kind)) h.nodup (by simp [hat]) ?_
        intro b hb he
        cases a
        cases b
        simp_all
      · rename_i hat
        rw [h.nodup.erase_eq_filter, List.filter_filter]
        refine congrArg _ (List.filter_congr fun b _ => ?_)
        by_cases hb : b.transition = t
        · have : b ≠ a := fun e => hat (e ▸ hb)
          simp [hb, this]
        · simp [hb]

/-! ## Rows in any order -/

/-- Every row lists the arcs of its node once each, in some order, and no arc lies at a node without
a row. -/
structure Mirrored (inc : Incidence) : Prop where
  nodup : inc.arcs.Nodup
  place : ∀ p, (inc.placeArcs p).Perm
    ((inc.arcs.filter (·.place = p)).map fun a => (a.transition, a.kind))
  transition : ∀ t, (inc.transitionArcs t).Perm
    ((inc.arcs.filter (·.transition = t)).map fun a => (a.place, a.kind))

theorem Aligned.mirrored {inc : Incidence} (h : inc.Aligned) : inc.Mirrored :=
  ⟨h.nodup, fun p => .of_eq (h.place p), fun t => .of_eq (h.transition t)⟩

theorem Mirrored.mem_placeArcs {inc : Incidence} (h : inc.Mirrored) {p : PlaceId}
    {t : TransitionId} {k : ArcKind} : (t, k) ∈ inc.placeArcs p ↔ Arc.mk p t k ∈ inc.arcs := by
  rw [(h.place p).mem_iff, List.mem_map]
  constructor
  · rintro ⟨a, ha, he⟩
    obtain ⟨hmem, hp⟩ := List.mem_filter.1 ha
    cases he
    exact of_decide_eq_true hp ▸ hmem
  · exact fun ha => ⟨_, List.mem_filter.2 ⟨ha, decide_eq_true rfl⟩, rfl⟩

theorem Mirrored.mem_transitionArcs {inc : Incidence} (h : inc.Mirrored) {p : PlaceId}
    {t : TransitionId} {k : ArcKind} :
    (p, k) ∈ inc.transitionArcs t ↔ Arc.mk p t k ∈ inc.arcs := by
  rw [(h.transition t).mem_iff, List.mem_map]
  constructor
  · rintro ⟨a, ha, he⟩
    obtain ⟨hmem, ht⟩ := List.mem_filter.1 ha
    cases he
    exact of_decide_eq_true ht ▸ hmem
  · exact fun ha => ⟨_, List.mem_filter.2 ⟨ha, decide_eq_true rfl⟩, rfl⟩

theorem Mirrored.nodup_placeArcs {inc : Incidence} (h : inc.Mirrored) (p : PlaceId) :
    (inc.placeArcs p).Nodup := by
  rw [(h.place p).nodup_iff]
  refine List.pairwise_map.2 ((h.nodup.filter _).imp_of_mem fun {a b} ha hb hab he => hab ?_)
  have ha := of_decide_eq_true (List.mem_filter.1 ha).2
  have hb := of_decide_eq_true (List.mem_filter.1 hb).2
  cases a
  cases b
  simp_all

theorem Mirrored.nodup_transitionArcs {inc : Incidence} (h : inc.Mirrored) (t : TransitionId) :
    (inc.transitionArcs t).Nodup := by
  rw [(h.transition t).nodup_iff]
  refine List.pairwise_map.2 ((h.nodup.filter _).imp_of_mem fun {a b} ha hb hab he => hab ?_)
  have ha := of_decide_eq_true (List.mem_filter.1 ha).2
  have hb := of_decide_eq_true (List.mem_filter.1 hb).2
  cases a
  cases b
  simp_all

/-- The place of an arc has a row. -/
theorem Mirrored.place_lt {inc : Incidence} (h : inc.Mirrored) {a : Arc} (ha : a ∈ inc.arcs) :
    index a.place < inc.byPlace.size :=
  Arena.lt_of_mem_row (h.mem_placeArcs.2 ha)

/-- The transition of an arc has a row. -/
theorem Mirrored.transition_lt {inc : Incidence} (h : inc.Mirrored) {a : Arc}
    (ha : a ∈ inc.arcs) : index a.transition < inc.byTransition.size :=
  Arena.lt_of_mem_row (h.mem_transitionArcs.2 ha)

theorem Mirrored.insert {inc inc' : Incidence} {a : Arc} {new : Bool} (h : inc.Mirrored)
    (hok : inc.insert a = .ok (inc', new)) : inc'.Mirrored := by
  cases new with
  | false => exact (insert_eq_ok_false_iff.1 hok).2 ▸ h
  | true =>
    have hnodup := nodup_insert h.nodup hok
    obtain ⟨_, hp, ht, rfl⟩ := insert_eq_ok_true_iff.1 hok
    refine ⟨hnodup, fun p => ?_, fun t => ?_⟩
    · have hrow := h.place p
      simp only [placeArcs] at hrow ⊢
      rw [Arena.getD_modify hp, List.filter_append, List.map_append]
      by_cases hap : a.place = p
      · simpa [hap] using hrow.append_right _
      · simpa [hap] using hrow
    · have hrow := h.transition t
      simp only [transitionArcs] at hrow ⊢
      rw [Arena.getD_modify ht, List.filter_append, List.map_append]
      by_cases hat : a.transition = t
      · simpa [hat] using hrow.append_right _
      · simpa [hat] using hrow

/-- Erasing an arc leaves the arcs of a node that it does not touch. -/
theorem filter_erase_of_not {l : List Arc} {keep : Arc → Bool} {a : Arc} (hnodup : l.Nodup)
    (hkeep : keep a = false) : (l.erase a).filter keep = l.filter keep := by
  rw [hnodup.erase_eq_filter, List.filter_filter]
  refine List.filter_congr fun b _ => ?_
  by_cases hb : b = a
  · simp [hb, hkeep]
  · simp [hb]

theorem Mirrored.erase {inc inc' : Incidence} {a : Arc} {found : Bool} (h : inc.Mirrored)
    (hok : inc.erase a = .ok (inc', found)) : inc'.Mirrored := by
  cases found with
  | false => exact (erase_eq_ok_false_iff.1 hok).2 ▸ h
  | true =>
    obtain ⟨_, hp, ht, rfl⟩ := erase_eq_ok_true_iff.1 hok
    refine ⟨h.nodup.erase a, fun p => ?_, fun t => ?_⟩
    · have hrow := h.place p
      simp only [placeArcs] at hrow ⊢
      rw [Arena.getD_modify hp]
      split
      · rename_i hap
        subst hap
        refine (hrow.filter _).trans (.of_eq (filter_map_eq (fun b => (b.transition, b.kind))
          h.nodup (by simp) ?_))
        intro b hb he
        cases a
        cases b
        simp_all
      · rename_i hap
        rwa [filter_erase_of_not h.nodup (by simpa using hap)]
    · have hrow := h.transition t
      simp only [transitionArcs] at hrow ⊢
      rw [Arena.getD_modify ht]
      split
      · rename_i hat
        subst hat
        refine (hrow.filter _).trans (.of_eq (filter_map_eq (fun b => (b.place, b.kind))
          h.nodup (by simp) ?_))
        intro b hb he
        cases a
        cases b
        simp_all
      · rename_i hat
        rwa [filter_erase_of_not h.nodup (by simpa using hat)]

end Incidence

end ProcessNet
