/-
Consistent nets. Rows mirror the arcs, arcs join live nodes, and the name indices lead from the
name of each live node to that node and hold nothing else. This is what the check of a net finds,
and every single edit of a consistent net succeeds, keeps it consistent and does what it says to
nodes and arcs.
-/
import ProcessNet.Net.Consistency
import ProcessNet.Proofs.Incidence.Mirror

namespace ProcessNet

open Identifier

/-! ## Slots and their names -/

namespace Arena

variable {ι α : Type} [Identifier ι]

theorem mem_entries {a : Arena ι α} {i : ι} {x : α} : (i, x) ∈ a.entries ↔ a.get? i = some x := by
  rw [entries, List.mem_map, get?]
  constructor
  · rintro ⟨⟨y, n⟩, hmem, he⟩
    cases he
    rw [index_ofIndex]
    exact List.mem_zipIdx_iff_getElem?.1 hmem
  · exact fun h => ⟨(x, index i), List.mem_zipIdx_iff_getElem?.2 h, by simp⟩

/-- The identifiers of the slots in use are listed in ascending order. -/
theorem ascending_live (slots : Arena ι (Option α)) :
    Ascending ((slots.entries.filterMap fun (i, slot) => slot.map (i, ·)).map (·.1)) := by
  have hnumbers : slots.items.zipIdx.Pairwise fun e f => e.2 < f.2 := by
    have := List.pairwise_lt_range' (s := 0) (n := slots.items.length)
    rw [← List.zipIdx_map_snd 0 slots.items] at this
    exact List.pairwise_map.1 this
  rw [Ascending, List.pairwise_map, List.pairwise_filterMap, entries, List.pairwise_map]
  refine hnumbers.imp fun {e f} hlt b hb c hc => ?_
  obtain ⟨x, _, rfl⟩ := Option.map_eq_some_iff.1 hb
  obtain ⟨y, _, rfl⟩ := Option.map_eq_some_iff.1 hc
  rwa [index_ofIndex, index_ofIndex]

/-- No identifier occurs twice among those of the slots in use. -/
theorem nodup_live (slots : Arena ι (Option α)) :
    ((slots.entries.filterMap fun (i, slot) => slot.map (i, ·)).map (·.1)).Nodup :=
  slots.ascending_live.nodup

/-- The number of slots in use. -/
def liveCount (slots : Arena ι (Option α)) : Nat := slots.items.countP Option.isSome

theorem length_filterMap_entries {β : Type} (slots : Arena ι (Option α)) (f : ι → α → β) :
    (slots.entries.filterMap fun (i, slot) => slot.map (f i)).length = slots.liveCount := by
  rw [List.length_filterMap_eq_countP, entries, List.countP_map, liveCount]
  have hunzip : slots.items.countP Option.isSome
      = slots.items.zipIdx.countP fun e => e.1.isSome := by
    conv_lhs => rw [← List.zipIdx_map_fst 0 slots.items, List.countP_map]
    rfl
  rw [hunzip]
  exact List.countP_congr fun e _ => by simp

omit [Identifier ι] in
theorem liveCount_push_some {slots : Arena ι (Option α)} {x : α} :
    (slots.push (some x)).liveCount = slots.liveCount + 1 := by
  simp [liveCount, push]

theorem liveCount_set_none {slots : Arena ι (Option α)} {i : ι} {x : α}
    (h : slots.get? i = some (some x)) : (slots.set i none).liveCount + 1 = slots.liveCount := by
  obtain ⟨hi, hx⟩ := List.getElem?_eq_some_iff.1 h
  have hpos : 0 < slots.items.countP Option.isSome :=
    List.countP_pos_iff.2 ⟨some x, List.mem_of_getElem? h, rfl⟩
  simp only [liveCount, set, List.countP_set hi, hx, Option.isSome_some, Option.isSome_none]
  simp
  omega

end Arena

namespace NameIndex

variable {ι α : Type} [Identifier ι]

/-- The index leads from the name of each item in use to that item, and holds nothing else. -/
structure Indexes (x : NameIndex ι) (slots : Arena ι (Option α)) (name : α → String) : Prop where
  find : ∀ i a, slots.get? i = some (some a) → x.find? (name a) = some i
  size : x.size = slots.liveCount

theorem Indexes.push {x : NameIndex ι} {slots : Arena ι (Option α)} {name : α → String} {a : α}
    [DecidableEq ι] (h : x.Indexes slots name) (hnew : x.contains (name a) = false) :
    (x.insert (name a) slots.next).Indexes (slots.push (some a)) name := by
  have hnone : x.find? (name a) = none := by simpa [contains] using hnew
  have hsize : ∀ l : List (String × ι), l.lookup (name a) = none →
      (insertEntry (name a) slots.next l).length = l.length + 1 := by
    intro l
    induction l with
    | nil => exact fun _ => rfl
    | cons e l ih =>
      obtain ⟨n, i⟩ := e
      rw [lookup_cons]
      split
      · exact fun hl => nomatch hl
      · rename_i hne
        intro hl
        rw [insertEntry, if_neg (Ne.symm hne), List.length_cons, ih hl, List.length_cons]
  refine ⟨fun i b hb => ?_, ?_⟩
  · rw [find?_insert]
    by_cases hi : i = slots.next
    · subst hi
      rw [Arena.get?_push_next] at hb
      cases hb
      rw [if_pos rfl]
    · rw [Arena.get?_push_of_ne hi] at hb
      have hfind := h.find i b hb
      rw [if_neg, hfind]
      exact fun he => by rw [he, hnone] at hfind; cases hfind
  · rw [Arena.liveCount_push_some, ← h.size]
    exact hsize x.entries hnone

theorem Indexes.erase {x : NameIndex ι} {slots : Arena ι (Option α)} {name : α → String} {i : ι}
    {a : α} [DecidableEq ι] (h : x.Indexes slots name) (ha : slots.get? i = some (some a)) :
    (x.erase (name a)).Indexes (slots.set i none) name := by
  refine ⟨fun j b hb => ?_, ?_⟩
  · rw [Arena.get?_set] at hb
    split at hb
    · cases hj : slots.get? j <;> simp [hj] at hb
    · rename_i hij
      have hfind := h.find j b hb
      rw [find?_erase_of_ne, hfind]
      intro he
      rw [he, h.find i a ha] at hfind
      exact hij (Option.some.inj hfind)
  · have hsize := Arena.liveCount_set_none ha
    have hmem : ∃ e ∈ x.entries, decide (e.1 = name a) = true := by
      have hfind := h.find i a ha
      obtain ⟨l, r, hlr, _⟩ := List.lookup_eq_some_iff.1 hfind
      exact ⟨(name a, i), hlr ▸ List.mem_append_right l List.mem_cons_self, decide_eq_true rfl⟩
    obtain ⟨e, he, hn⟩ := hmem
    have hx := h.size
    simp only [NameIndex.size, NameIndex.erase] at hx ⊢
    rw [List.length_eraseP_of_mem he hn]
    omega

end NameIndex

namespace Net

/-! ## Consistency -/

/-- All parts of the net agree. -/
structure Consistent (n : Net) : Prop where
  mirrored : n.incidence.Mirrored
  livePlace : ∀ a ∈ n.arcs, n.hasPlace a.place
  liveTransition : ∀ a ∈ n.arcs, n.hasTransition a.transition
  placeNames : n.placeNames.Indexes n.places (·.name)
  transitionNames : n.transitionNames.Indexes n.transitions (·.name)

theorem hasPlace_iff {n : Net} {p : PlaceId} : n.hasPlace p ↔ ∃ x, n.place? p = some x :=
  Option.isSome_iff_exists

theorem hasTransition_iff {n : Net} {t : TransitionId} :
    n.hasTransition t ↔ ∃ x, n.transition? t = some x :=
  Option.isSome_iff_exists

/-- A place that a net has is none of those it does not have. -/
theorem ne_of_hasPlace {n : Net} {p q : PlaceId} (hq : n.hasPlace q) (hp : n.hasPlace p = false) :
    q ≠ p := by
  rintro rfl
  rw [hq] at hp
  cases hp

theorem ne_of_hasTransition {n : Net} {t u : TransitionId} (hu : n.hasTransition u)
    (ht : n.hasTransition t = false) : u ≠ t := by
  rintro rfl
  rw [hu] at ht
  cases ht

/-- No arc is at a place that the net does not have. -/
theorem Consistent.place_ne {n : Net} (h : n.Consistent) {p : PlaceId} (hp : n.hasPlace p = false)
    {a : Arc} (ha : a ∈ n.arcs) : a.place ≠ p :=
  ne_of_hasPlace (h.livePlace a ha) hp

theorem Consistent.transition_ne {n : Net} (h : n.Consistent) {t : TransitionId}
    (ht : n.hasTransition t = false) {a : Arc} (ha : a ∈ n.arcs) : a.transition ≠ t :=
  ne_of_hasTransition (h.liveTransition a ha) ht

theorem place?_eq_some_iff {n : Net} {p : PlaceId} {x : Place} :
    n.place? p = some x ↔ n.places.get? p = some (some x) :=
  Option.join_eq_some_iff

theorem transition?_eq_some_iff {n : Net} {t : TransitionId} {x : Transition} :
    n.transition? t = some x ↔ n.transitions.get? t = some (some x) :=
  Option.join_eq_some_iff

theorem mem_livePlaces {n : Net} {p : PlaceId} {x : Place} :
    (p, x) ∈ n.livePlaces ↔ n.place? p = some x := by
  rw [livePlaces, List.mem_filterMap, place?_eq_some_iff]
  constructor
  · rintro ⟨⟨q, slot⟩, hmem, he⟩
    obtain ⟨y, rfl, hy⟩ := Option.map_eq_some_iff.1 he
    cases hy
    exact Arena.mem_entries.1 hmem
  · exact fun h => ⟨(p, some x), Arena.mem_entries.2 h, rfl⟩

theorem mem_liveTransitions {n : Net} {t : TransitionId} {x : Transition} :
    (t, x) ∈ n.liveTransitions ↔ n.transition? t = some x := by
  rw [liveTransitions, List.mem_filterMap, transition?_eq_some_iff]
  constructor
  · rintro ⟨⟨q, slot⟩, hmem, he⟩
    obtain ⟨y, rfl, hy⟩ := Option.map_eq_some_iff.1 he
    cases hy
    exact Arena.mem_entries.1 hmem
  · exact fun h => ⟨(t, some x), Arena.mem_entries.2 h, rfl⟩

theorem mem_placeIds {n : Net} {p : PlaceId} : p ∈ n.placeIds ↔ n.hasPlace p := by
  rw [placeIds, List.mem_map, hasPlace_iff]
  constructor
  · rintro ⟨⟨q, x⟩, hmem, rfl⟩
    exact ⟨x, mem_livePlaces.1 hmem⟩
  · exact fun ⟨x, hx⟩ => ⟨(p, x), mem_livePlaces.2 hx, rfl⟩

theorem mem_transitionIds {n : Net} {t : TransitionId} :
    t ∈ n.transitionIds ↔ n.hasTransition t := by
  rw [transitionIds, List.mem_map, hasTransition_iff]
  constructor
  · rintro ⟨⟨q, x⟩, hmem, rfl⟩
    exact ⟨x, mem_liveTransitions.1 hmem⟩
  · exact fun ⟨x, hx⟩ => ⟨(t, x), mem_liveTransitions.2 hx, rfl⟩

theorem nodup_placeIds (n : Net) : n.placeIds.Nodup := n.places.nodup_live

theorem nodup_transitionIds (n : Net) : n.transitionIds.Nodup := n.transitions.nodup_live

theorem ascending_transitionIds (n : Net) : Ascending n.transitionIds := n.transitions.ascending_live

theorem inconsistencyAt?_eq_none_iff {n : Net} {a : Arc} :
    n.inconsistencyAt? a = none ↔ n.hasPlace a.place ∧ n.hasTransition a.transition := by
  simp only [inconsistencyAt?]
  cases n.hasPlace a.place <;> cases n.hasTransition a.transition <;> simp

/-- `checkConsistency` passes exactly the consistent nets, as far as every arc is listed once. -/
theorem consistent_iff_checkConsistency {n : Net} (hnodup : n.arcs.Nodup) :
    n.Consistent ↔ n.checkConsistency = .ok () := by
  have hcheck : n.checkConsistency = .ok () ↔ n.inconsistency? = none := by
    simp only [checkConsistency]
    cases n.inconsistency? <;> simp
  have hplaces : n.livePlaces.length = n.places.liveCount :=
    Arena.length_filterMap_entries n.places fun p x => (p, x)
  have htransitions : n.liveTransitions.length = n.transitions.liveCount :=
    Arena.length_filterMap_entries n.transitions fun t x => (t, x)
  rw [hcheck, inconsistency?]
  simp only [Option.orElse_eq_orElse, Option.orElse_eq_or, Option.or_eq_none_iff,
    Option.map_eq_none_iff, List.findSome?_eq_none_iff, inconsistencyAt?_eq_none_iff,
    ite_eq_left_iff, reduceCtorEq, imp_false, not_not, ← Incidence.mirrored_iff_rowMismatch? hnodup,
    hplaces, htransitions]
  constructor
  · intro h
    exact ⟨h.mirrored, fun a ha => ⟨h.livePlace a ha, h.liveTransition a ha⟩,
      fun e he => h.placeNames.find _ _ (place?_eq_some_iff.1 (mem_livePlaces.1 he)),
      fun e he => h.transitionNames.find _ _ (transition?_eq_some_iff.1 (mem_liveTransitions.1 he)),
      h.placeNames.size, h.transitionNames.size⟩
  · rintro ⟨hrows, hlive, hp, ht, hps, hts⟩
    exact ⟨hrows, fun a ha => (hlive a ha).1, fun a ha => (hlive a ha).2,
      ⟨fun p x h => hp (p, x) (mem_livePlaces.2 (place?_eq_some_iff.2 h)), hps⟩,
      ⟨fun t x h => ht (t, x) (mem_liveTransitions.2 (transition?_eq_some_iff.2 h)), hts⟩⟩

/-! ## Edits -/

/-- `n'` is `n` without the place `p` and the arcs at it. -/
structure PlaceGone (n : Net) (p : PlaceId) (n' : Net) : Prop where
  consistent : n'.Consistent
  place? : ∀ q, n'.place? q = if q = p then none else n.place? q
  transition? : ∀ t, n'.transition? t = n.transition? t
  mem_arcs : ∀ b, b ∈ n'.arcs ↔ b ∈ n.arcs ∧ b.place ≠ p
  placeRows : n'.incidence.byPlace.size = n.incidence.byPlace.size
  transitionRows : n'.incidence.byTransition.size = n.incidence.byTransition.size
  placeCount : n'.placeCount + 1 = n.placeCount
  transitionCount : n'.transitionCount = n.transitionCount

/-- `n'` is `n` without the transition `t` and the arcs at it. -/
structure TransitionGone (n : Net) (t : TransitionId) (n' : Net) : Prop where
  consistent : n'.Consistent
  place? : ∀ p, n'.place? p = n.place? p
  transition? : ∀ u, n'.transition? u = if u = t then none else n.transition? u
  mem_arcs : ∀ b, b ∈ n'.arcs ↔ b ∈ n.arcs ∧ b.transition ≠ t
  placeRows : n'.incidence.byPlace.size = n.incidence.byPlace.size
  transitionRows : n'.incidence.byTransition.size = n.incidence.byTransition.size
  placeCount : n'.placeCount = n.placeCount
  transitionCount : n'.transitionCount + 1 = n.transitionCount

/-- `n'` is `n` with other arcs. -/
structure SameNodes (n n' : Net) : Prop where
  places : n'.places = n.places
  transitions : n'.transitions = n.transitions
  placeNames : n'.placeNames = n.placeNames
  transitionNames : n'.transitionNames = n.transitionNames
  placeRows : n'.incidence.byPlace.size = n.incidence.byPlace.size
  transitionRows : n'.incidence.byTransition.size = n.incidence.byTransition.size

theorem SameNodes.refl (n : Net) : SameNodes n n := ⟨rfl, rfl, rfl, rfl, rfl, rfl⟩

theorem SameNodes.trans {n n' n'' : Net} (h : SameNodes n n') (k : SameNodes n' n'') :
    SameNodes n n'' :=
  ⟨k.places.trans h.places, k.transitions.trans h.transitions, k.placeNames.trans h.placeNames,
    k.transitionNames.trans h.transitionNames, k.placeRows.trans h.placeRows,
    k.transitionRows.trans h.transitionRows⟩

theorem SameNodes.place? {n n' : Net} (h : SameNodes n n') (p : PlaceId) :
    n'.place? p = n.place? p := by
  rw [Net.place?, Net.place?, h.places]

theorem SameNodes.transition? {n n' : Net} (h : SameNodes n n') (t : TransitionId) :
    n'.transition? t = n.transition? t := by
  rw [Net.transition?, Net.transition?, h.transitions]

theorem SameNodes.hasPlace {n n' : Net} (h : SameNodes n n') (p : PlaceId) :
    n'.hasPlace p = n.hasPlace p := by
  rw [Net.hasPlace, Net.hasPlace, h.place?]

theorem SameNodes.hasTransition {n n' : Net} (h : SameNodes n n') (t : TransitionId) :
    n'.hasTransition t = n.hasTransition t := by
  rw [Net.hasTransition, Net.hasTransition, h.transition?]

theorem SameNodes.placeCount {n n' : Net} (h : SameNodes n n') : n'.placeCount = n.placeCount := by
  rw [Net.placeCount, Net.placeCount, h.placeNames]

theorem SameNodes.transitionCount {n n' : Net} (h : SameNodes n n') :
    n'.transitionCount = n.transitionCount := by
  rw [Net.transitionCount, Net.transitionCount, h.transitionNames]

/-- Other arcs between live nodes, listed in their rows, keep a net consistent. -/
theorem SameNodes.consistent {n n' : Net} (h : SameNodes n n') (hn : n.Consistent)
    (hrows : n'.incidence.Mirrored)
    (hlive : ∀ a ∈ n'.arcs, n.hasPlace a.place ∧ n.hasTransition a.transition) :
    n'.Consistent := by
  refine ⟨hrows, fun a ha => ?_, fun a ha => ?_, ?_, ?_⟩
  · rw [h.hasPlace]
    exact (hlive a ha).1
  · rw [h.hasTransition]
    exact (hlive a ha).2
  · rw [h.placeNames, h.places]
    exact hn.placeNames
  · rw [h.transitionNames, h.transitions]
    exact hn.transitionNames

theorem Consistent.exists_removePlace {n : Net} (h : n.Consistent) {p : PlaceId}
    (hp : n.hasPlace p) : ∃ n' x, n.removePlace p = .ok (n', x) ∧ PlaceGone n p n' := by
  obtain ⟨x, hx⟩ := hasPlace_iff.1 hp
  have hslot := place?_eq_some_iff.1 hx
  obtain ⟨inc, l, hok, hmirror, hmem, hprow, htrow⟩ := h.mirrored.exists_detachPlace p
  have hplace : ∀ q, ((n.places.set p none).get? q).join = if q = p then none else n.place? q := by
    intro q
    rw [Arena.get?_set]
    by_cases hq : p = q
    · subst hq
      simp [hslot]
    · simp [hq, Ne.symm hq, Net.place?]
  have hnames := h.placeNames.erase hslot
  have hsize := Arena.liveCount_set_none hslot
  refine ⟨_, x, by simp only [removePlace, hx, hok]; rfl, ?_⟩
  refine ⟨⟨hmirror, fun a ha => ?_, fun a ha => ?_, hnames, h.transitionNames⟩, hplace,
    fun _ => rfl, hmem, hprow, htrow, ?_, rfl⟩
  · obtain ⟨ha, hne⟩ := (hmem a).1 ha
    rw [Net.hasPlace, Net.place?, hplace, if_neg hne]
    exact h.livePlace a ha
  · exact h.liveTransition a ((hmem a).1 ha).1
  · have h₁ := hnames.size
    have h₂ := h.placeNames.size
    simp only [placeCount]
    omega

theorem Consistent.exists_removeTransition {n : Net} (h : n.Consistent) {t : TransitionId}
    (ht : n.hasTransition t) :
    ∃ n' x, n.removeTransition t = .ok (n', x) ∧ TransitionGone n t n' := by
  obtain ⟨x, hx⟩ := hasTransition_iff.1 ht
  have hslot := transition?_eq_some_iff.1 hx
  obtain ⟨inc, l, hok, hmirror, hmem, hprow, htrow⟩ := h.mirrored.exists_detachTransition t
  have htransition : ∀ u, ((n.transitions.set t none).get? u).join
      = if u = t then none else n.transition? u := by
    intro u
    rw [Arena.get?_set]
    by_cases hu : t = u
    · subst hu
      simp [hslot]
    · simp [hu, Ne.symm hu, Net.transition?]
  have hnames := h.transitionNames.erase hslot
  have hsize := Arena.liveCount_set_none hslot
  refine ⟨_, x, by simp only [removeTransition, hx, hok]; rfl, ?_⟩
  refine ⟨⟨hmirror, fun a ha => ?_, fun a ha => ?_, h.placeNames, hnames⟩, fun _ => rfl,
    htransition, hmem, hprow, htrow, rfl, ?_⟩
  · exact h.livePlace a ((hmem a).1 ha).1
  · obtain ⟨ha, hne⟩ := (hmem a).1 ha
    rw [Net.hasTransition, Net.transition?, htransition, if_neg hne]
    exact h.liveTransition a ha
  · have h₁ := hnames.size
    have h₂ := h.transitionNames.size
    simp only [transitionCount]
    omega

/-- `addArc` succeeds between live nodes that have rows. -/
theorem Consistent.exists_addArc {n : Net} (h : n.Consistent) {a : Arc} (hp : n.hasPlace a.place)
    (ht : n.hasTransition a.transition) (hprow : index a.place < n.incidence.byPlace.size)
    (htrow : index a.transition < n.incidence.byTransition.size) :
    ∃ n' new, n.addArc a = .ok (n', new) ∧ n'.Consistent ∧ SameNodes n n' ∧
      ∀ b, b ∈ n'.arcs ↔ b = a ∨ b ∈ n.arcs := by
  obtain ⟨inc, new, hok⟩ : ∃ inc new, n.incidence.insert a = .ok (inc, new) := by
    by_cases ha : a ∈ n.incidence.arcs
    · exact ⟨_, _, Incidence.insert_eq_ok_false_iff.2 ⟨ha, rfl⟩⟩
    · exact ⟨_, _, Incidence.insert_eq_ok_true_iff.2 ⟨ha, hprow, htrow, rfl⟩⟩
  have hrows : inc.byPlace.size = n.incidence.byPlace.size ∧
      inc.byTransition.size = n.incidence.byTransition.size := by
    cases new with
    | true =>
      obtain ⟨_, _, _, rfl⟩ := Incidence.insert_eq_ok_true_iff.1 hok
      exact ⟨Arena.size_modify, Arena.size_modify⟩
    | false => exact (Incidence.insert_eq_ok_false_iff.1 hok).2 ▸ ⟨rfl, rfl⟩
  have hsame : SameNodes n { n with incidence := inc } := ⟨rfl, rfl, rfl, rfl, hrows.1, hrows.2⟩
  refine ⟨_, new, by simp only [addArc, hp, ht, hok, if_true]; rfl, ?_, hsame,
    fun b => Incidence.mem_insert hok⟩
  refine hsame.consistent h (h.mirrored.insert hok) fun b hb => ?_
  rcases (Incidence.mem_insert hok).1 hb with rfl | hb
  · exact ⟨hp, ht⟩
  · exact ⟨h.livePlace b hb, h.liveTransition b hb⟩

theorem Consistent.exists_removeArc {n : Net} (h : n.Consistent) {a : Arc} (ha : a ∈ n.arcs) :
    ∃ n' found, n.removeArc a = .ok (n', found) ∧ n'.Consistent ∧ SameNodes n n' ∧
      (∀ b, b ∈ n'.arcs ↔ b ∈ n.arcs ∧ b ≠ a) ∧ n'.arcCount + 1 = n.arcCount := by
  obtain ⟨inc, found, hok, ht⟩ := h.mirrored.exists_erase a
  have hsame : SameNodes n { n with incidence := inc } :=
    ⟨rfl, rfl, rfl, rfl, ht.placeRows, ht.transitionRows⟩
  have hmem : ∀ b, b ∈ inc.arcs ↔ b ∈ n.arcs ∧ b ≠ a := fun b => by
    rw [ht.mem_arcs, List.mem_singleton, arcs]
  refine ⟨_, found, by simp only [removeArc, hok]; rfl, ?_, hsame, hmem, ?_⟩
  · exact hsame.consistent h ht.mirrored fun b hb =>
      ⟨h.livePlace b ((hmem b).1 hb).1, h.liveTransition b ((hmem b).1 hb).1⟩
  · have hlen := List.length_erase_of_mem ha
    have hpos := List.length_pos_of_mem ha
    cases found with
    | true =>
      obtain ⟨_, _, _, rfl⟩ := Incidence.erase_eq_ok_true_iff.1 hok
      simp only [arcCount, Incidence.size, arcs] at hlen hpos ⊢
      omega
    | false => exact absurd ha (Incidence.erase_eq_ok_false_iff.1 hok).1

end Net

end ProcessNet
