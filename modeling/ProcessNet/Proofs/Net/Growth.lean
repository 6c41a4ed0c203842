/-
How nets grow: what a new place, a new transition and a new arc do to a net, and that the parts of the
net still agree afterwards.
-/
import ProcessNet.Proofs.Net.Consistent

namespace ProcessNet.Net

open Identifier

/-! ## When edits succeed -/

theorem addPlace_eq_ok {n n' : Net} {p : Place} {id : PlaceId} (h : n.addPlace p = .ok (n', id)) :
    n.placeNames.contains p.name = false ∧ id = n.places.next ∧
      n' = { n with
        places := n.places.push (some p)
        incidence := { n.incidence with byPlace := n.incidence.byPlace.push [] }
        placeNames := n.placeNames.insert p.name id } := by
  unfold Net.addPlace at h
  split at h
  · cases h
  · rename_i hname
    change (if n.incidence.byPlace.next = n.places.next then _ else _) = _ at h
    by_cases hid : n.incidence.byPlace.next = n.places.next
    · rw [if_pos hid] at h
      cases h
      exact ⟨by simpa using hname, hid, rfl⟩
    · rw [if_neg hid] at h
      cases h

theorem addTransition_eq_ok {n n' : Net} {t : Transition} {id : TransitionId}
    (h : n.addTransition t = .ok (n', id)) :
    n.transitionNames.contains t.name = false ∧ id = n.transitions.next ∧
      n' = { n with
        transitions := n.transitions.push (some t)
        incidence := { n.incidence with byTransition := n.incidence.byTransition.push [] }
        transitionNames := n.transitionNames.insert t.name id } := by
  unfold Net.addTransition at h
  split at h
  · cases h
  · rename_i hname
    change (if n.incidence.byTransition.next = n.transitions.next then _ else _) = _ at h
    by_cases hid : n.incidence.byTransition.next = n.transitions.next
    · rw [if_pos hid] at h
      cases h
      exact ⟨by simpa using hname, hid, rfl⟩
    · rw [if_neg hid] at h
      cases h

theorem addArc_eq_ok {n n' : Net} {a : Arc} {new : Bool} (h : n.addArc a = .ok (n', new)) :
    n.hasPlace a.place ∧ n.hasTransition a.transition ∧
      ∃ inc, n.incidence.insert a = .ok (inc, new) ∧ n' = { n with incidence := inc } := by
  unfold Net.addArc at h
  split at h
  · rename_i hp
    split at h
    · rename_i ht
      cases hinc : n.incidence.insert a with
      | error f => rw [hinc] at h; cases h
      | ok r =>
        rw [hinc] at h
        cases h
        exact ⟨hp, ht, r.1, rfl, rfl⟩
    · cases h
  · cases h

theorem removePlace_eq_ok {n n' : Net} {p : PlaceId} {x : Place}
    (h : n.removePlace p = .ok (n', x)) :
    n.place? p = some x ∧ ∃ inc l, n.incidence.detachPlace p = .ok (inc, l) ∧
      n' = { n with
        places := n.places.set p none
        incidence := inc
        placeNames := n.placeNames.erase x.name } := by
  unfold Net.removePlace at h
  split at h
  · cases h
  · rename_i x' hx
    cases hinc : n.incidence.detachPlace p with
    | error f => rw [hinc] at h; cases h
    | ok r =>
      rw [hinc] at h
      cases h
      exact ⟨hx, r.1, r.2, rfl, rfl⟩

theorem removeTransition_eq_ok {n n' : Net} {t : TransitionId} {x : Transition}
    (h : n.removeTransition t = .ok (n', x)) :
    n.transition? t = some x ∧ ∃ inc l, n.incidence.detachTransition t = .ok (inc, l) ∧
      n' = { n with
        transitions := n.transitions.set t none
        incidence := inc
        transitionNames := n.transitionNames.erase x.name } := by
  unfold Net.removeTransition at h
  split at h
  · cases h
  · rename_i x' hx
    cases hinc : n.incidence.detachTransition t with
    | error f => rw [hinc] at h; cases h
    | ok r =>
      rw [hinc] at h
      cases h
      exact ⟨hx, r.1, r.2, rfl, rfl⟩

theorem removeArc_eq_ok {n n' : Net} {a : Arc} {found : Bool}
    (h : n.removeArc a = .ok (n', found)) :
    ∃ inc, n.incidence.erase a = .ok (inc, found) ∧ n' = { n with incidence := inc } := by
  unfold Net.removeArc at h
  cases hinc : n.incidence.erase a with
  | error f => rw [hinc] at h; cases h
  | ok r =>
    rw [hinc] at h
    cases h
    exact ⟨r.1, rfl, rfl⟩

/-! ## What edits do -/

/-- `n'` is `n` with the new place `x`, which got the identifier `p`. -/
structure PlaceAdded (n : Net) (x : Place) (p : PlaceId) (n' : Net) : Prop where
  consistent : n'.Consistent
  fresh : n.hasPlace p = false
  place? : ∀ q, n'.place? q = if q = p then some x else n.place? q
  transition? : ∀ t, n'.transition? t = n.transition? t
  arcs : n'.arcs = n.arcs

/-- `n'` is `n` with the new transition `x`, which got the identifier `t`. -/
structure TransitionAdded (n : Net) (x : Transition) (t : TransitionId) (n' : Net) : Prop where
  consistent : n'.Consistent
  fresh : n.hasTransition t = false
  place? : ∀ p, n'.place? p = n.place? p
  transition? : ∀ u, n'.transition? u = if u = t then some x else n.transition? u
  arcs : n'.arcs = n.arcs

theorem PlaceAdded.place?_self {n n' : Net} {x : Place} {p : PlaceId} (h : PlaceAdded n x p n') :
    n'.place? p = some x :=
  (h.place? p).trans (if_pos rfl)

theorem PlaceAdded.place?_kept {n n' : Net} {x y : Place} {p q : PlaceId} (h : PlaceAdded n x p n')
    (hq : n.place? q = some y) : n'.place? q = some y := by
  rw [h.place?, if_neg (ne_of_hasPlace (hasPlace_iff.2 ⟨y, hq⟩) h.fresh), hq]

theorem TransitionAdded.transition?_self {n n' : Net} {x : Transition} {t : TransitionId}
    (h : TransitionAdded n x t n') : n'.transition? t = some x :=
  (h.transition? t).trans (if_pos rfl)

theorem TransitionAdded.transition?_kept {n n' : Net} {x y : Transition} {t u : TransitionId}
    (h : TransitionAdded n x t n') (hu : n.transition? u = some y) : n'.transition? u = some y := by
  rw [h.transition?, if_neg (ne_of_hasTransition (hasTransition_iff.2 ⟨y, hu⟩) h.fresh), hu]

/-- `n'` is `n` with the arcs in `extra`. -/
structure Extended (n : Net) (extra : Arc → Prop) (n' : Net) : Prop where
  consistent : n'.Consistent
  nodes : SameNodes n n'
  mem_arcs : ∀ b, b ∈ n'.arcs ↔ extra b ∨ b ∈ n.arcs

variable {n n' : Net}

/-- A row that is opened for the next node is empty, as the arcs at that node are. -/
theorem get?_push_nil {ι α : Type} [Identifier ι] {rows : Arena ι (List α)} (i : ι) :
    ((rows.push []).get? i).getD [] = (rows.get? i).getD [] := by
  by_cases hi : i = rows.next
  · subst hi
    rw [Arena.get?_push_next, Arena.get?_next]
    rfl
  · rw [Arena.get?_push_of_ne hi]

theorem join_get?_push {ι α : Type} [Identifier ι] [DecidableEq ι] {slots : Arena ι (Option α)}
    {x : α} (i : ι) : ((slots.push (some x)).get? i).join =
      if i = slots.next then some x else (slots.get? i).join := by
  split
  · rename_i hi
    rw [hi, Arena.get?_push_next]
    rfl
  · rename_i hi
    rw [Arena.get?_push_of_ne hi]

theorem Consistent.addPlace (h : n.Consistent) {x : Place} {p : PlaceId}
    (hok : n.addPlace x = .ok (n', p)) : PlaceAdded n x p n' := by
  obtain ⟨hname, rfl, rfl⟩ := addPlace_eq_ok hok
  have hfresh : n.hasPlace n.places.next = false := by simp [hasPlace, Net.place?, Arena.get?_next]
  refine ⟨⟨?_, fun a ha => ?_, h.liveTransition, h.placeNames.push hname, h.transitionNames⟩,
    hfresh, join_get?_push, fun _ => rfl, rfl⟩
  · refine ⟨h.mirrored.nodup, fun q => ?_, h.mirrored.transition⟩
    rw [Incidence.placeArcs, get?_push_nil]
    exact h.mirrored.place q
  · have hlive := h.livePlace a ha
    rw [hasPlace, Net.place?] at hlive ⊢
    rw [join_get?_push]
    split
    · rfl
    · exact hlive

theorem Consistent.addTransition (h : n.Consistent) {x : Transition} {t : TransitionId}
    (hok : n.addTransition x = .ok (n', t)) : TransitionAdded n x t n' := by
  obtain ⟨hname, rfl, rfl⟩ := addTransition_eq_ok hok
  have hfresh : n.hasTransition n.transitions.next = false := by
    simp [hasTransition, Net.transition?, Arena.get?_next]
  refine ⟨⟨?_, h.livePlace, fun a ha => ?_, h.placeNames, h.transitionNames.push hname⟩,
    hfresh, fun _ => rfl, join_get?_push, rfl⟩
  · refine ⟨h.mirrored.nodup, h.mirrored.place, fun u => ?_⟩
    rw [Incidence.transitionArcs, get?_push_nil]
    exact h.mirrored.transition u
  · have hlive := h.liveTransition a ha
    rw [hasTransition, Net.transition?] at hlive ⊢
    rw [join_get?_push]
    split
    · rfl
    · exact hlive

theorem Consistent.addArc (h : n.Consistent) {a : Arc} {new : Bool}
    (hok : n.addArc a = .ok (n', new)) : Extended n (· = a) n' := by
  obtain ⟨hp, ht, inc, hinc, -⟩ := addArc_eq_ok hok
  have hrows : index a.place < n.incidence.byPlace.size ∧
      index a.transition < n.incidence.byTransition.size := by
    cases new with
    | true =>
      obtain ⟨_, hplace, htransition, _⟩ := Incidence.insert_eq_ok_true_iff.1 hinc
      exact ⟨hplace, htransition⟩
    | false =>
      have ha := (Incidence.insert_eq_ok_false_iff.1 hinc).1
      exact ⟨h.mirrored.place_lt ha, h.mirrored.transition_lt ha⟩
  obtain ⟨n₁, new₁, hok₁, hn, hsame, hmem⟩ := h.exists_addArc hp ht hrows.1 hrows.2
  rw [hok] at hok₁
  cases hok₁
  exact ⟨hn, hsame, hmem⟩

theorem Consistent.removePlace (h : n.Consistent) {p : PlaceId} {x : Place}
    (hok : n.removePlace p = .ok (n', x)) : PlaceGone n p n' := by
  obtain ⟨hx, -⟩ := removePlace_eq_ok hok
  obtain ⟨n₁, x₁, hok₁, hgone⟩ := h.exists_removePlace (hasPlace_iff.2 ⟨x, hx⟩)
  rw [hok] at hok₁
  cases hok₁
  exact hgone

theorem Consistent.removeTransition (h : n.Consistent) {t : TransitionId} {x : Transition}
    (hok : n.removeTransition t = .ok (n', x)) : TransitionGone n t n' := by
  obtain ⟨hx, -⟩ := removeTransition_eq_ok hok
  obtain ⟨n₁, x₁, hok₁, hgone⟩ := h.exists_removeTransition (hasTransition_iff.2 ⟨x, hx⟩)
  rw [hok] at hok₁
  cases hok₁
  exact hgone

/-- `removeArc` takes an arc from a consistent net, or finds that it is not there. -/
theorem Consistent.removeArc (h : n.Consistent) {a : Arc} {found : Bool}
    (hok : n.removeArc a = .ok (n', found)) : n'.Consistent ∧ SameNodes n n' := by
  by_cases ha : a ∈ n.arcs
  · obtain ⟨n₁, found₁, hok₁, hn, hsame, -⟩ := h.exists_removeArc ha
    rw [hok] at hok₁
    cases hok₁
    exact ⟨hn, hsame⟩
  · obtain ⟨inc, hinc, rfl⟩ := removeArc_eq_ok hok
    have hnone := Incidence.erase_eq_ok_false_iff.2 ⟨ha, rfl⟩
    rw [hnone] at hinc
    cases hinc
    exact ⟨h, .refl n⟩

/-! ## Changes that keep the names -/

theorem mapEntries_eq {ι α : Type} [Identifier ι] {slots : Arena ι α} {f : α → α} :
    (slots.mapEntries fun _ x => f x) = ⟨slots.items.map f⟩ := by
  show Arena.mk (slots.items.zipIdx.map (f ∘ Prod.fst)) = _
  rw [← List.map_map, List.zipIdx_map_fst]

theorem get?_mapEntries {ι α : Type} [Identifier ι] {slots : Arena ι α} {f : α → α} (i : ι) :
    (slots.mapEntries fun _ x => f x).get? i = (slots.get? i).map f := by
  rw [mapEntries_eq, Arena.get?, Arena.get?, List.getElem?_map]

theorem liveCount_mapEntries {ι α : Type} [Identifier ι] {slots : Arena ι (Option α)} {f : α → α} :
    (slots.mapEntries fun _ x => x.map f).liveCount = slots.liveCount := by
  rw [mapEntries_eq (f := Option.map f), Arena.liveCount, Arena.liveCount, List.countP_map]
  exact List.countP_congr fun x _ => by simp

/-- An index stays right where `mapEntries` changes the items but for their names. -/
theorem indexes_mapEntries {ι α : Type} [Identifier ι] {x : NameIndex ι} {slots : Arena ι (Option α)}
    {name : α → String} {f : α → α} (h : x.Indexes slots name) (hf : ∀ a, name (f a) = name a) :
    x.Indexes (slots.mapEntries fun _ slot => slot.map f) name := by
  refine ⟨fun i b hb => ?_, ?_⟩
  · rw [get?_mapEntries] at hb
    obtain ⟨slot, hslot, hb⟩ := Option.map_eq_some_iff.1 hb
    obtain ⟨a, rfl, rfl⟩ := Option.map_eq_some_iff.1 hb
    rw [hf]
    exact h.find i a hslot
  · rw [liveCount_mapEntries]
    exact h.size

/-- `n` with every place and every transition changed. -/
def mapNodes (n : Net) (f : Place → Place) (g : Transition → Transition) : Net :=
  { n with
    places := n.places.mapEntries fun _ slot => slot.map f
    transitions := n.transitions.mapEntries fun _ slot => slot.map g }

variable {f : Place → Place} {g : Transition → Transition}

theorem place?_mapNodes (p : PlaceId) : (n.mapNodes f g).place? p = (n.place? p).map f := by
  rw [Net.place?, Net.place?, mapNodes, get?_mapEntries]
  cases n.places.get? p <;> rfl

theorem transition?_mapNodes (t : TransitionId) :
    (n.mapNodes f g).transition? t = (n.transition? t).map g := by
  rw [Net.transition?, Net.transition?, mapNodes, get?_mapEntries]
  cases n.transitions.get? t <;> rfl

theorem Consistent.mapNodes (h : n.Consistent) (hf : ∀ x, (f x).name = x.name)
    (hg : ∀ x, (g x).name = x.name) : (n.mapNodes f g).Consistent := by
  refine ⟨h.mirrored, fun a ha => ?_, fun a ha => ?_, indexes_mapEntries h.placeNames hf,
    indexes_mapEntries h.transitionNames hg⟩
  · rw [hasPlace, place?_mapNodes, Option.isSome_map]
    exact h.livePlace a ha
  · rw [hasTransition, transition?_mapNodes, Option.isSome_map]
    exact h.liveTransition a ha

end ProcessNet.Net
