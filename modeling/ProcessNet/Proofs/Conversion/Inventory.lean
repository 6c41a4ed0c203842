/-
The inventory of a converted process: how many places and transitions its net has, which flows share a
place, what feeds a place that ends were merged into, and which transitions are labelled. All of it is
read off the ledger: places by the classes of flows that have one place, transitions by the owners of the
steps that they do.
-/
import Mathlib.Algebra.Group.Action.Defs
import ProcessNet.Proofs.Conversion.Built
import ProcessNet.Proofs.Conversion.Closing
import ProcessNet.Proofs.Conversion.Evaluation
import ProcessNet.Proofs.Conversion.Owners

namespace ProcessNet

open Identifier

/-! ## Classes -/

section Classes

variable {α β : Type} {L : List α} {M : List β} {φ : α → β} {C : List α} {classes : List (List α)}
  {x y : α}

/-- The members of the classes other than the first one of each. -/
def furtherMembers (classes : List (List α)) : List α := classes.flatMap List.tail

theorem mem_furtherMembers : x ∈ furtherMembers classes ↔ ∃ C ∈ classes, x ∈ C.tail := List.mem_flatMap

theorem length_furtherMembers :
    (furtherMembers classes).length = (classes.map fun C => C.length - 1).sum := by
  rw [furtherMembers, List.length_flatMap]
  exact congrArg List.sum (List.map_congr_left fun C _ => List.length_tail)

theorem nodup_furtherMembers (hnodup : ∀ C ∈ classes, C.Nodup)
    (hdisjoint : classes.Pairwise List.Disjoint) : (furtherMembers classes).Nodup := by
  refine List.nodup_flatMap.2 ⟨fun C hC => (hnodup C hC).tail, hdisjoint.imp fun h x hx hx' => ?_⟩
  exact h (List.mem_of_mem_tail hx) (List.mem_of_mem_tail hx')

/-- A member that is no further one is the first. -/
theorem head?_of_notMem_furtherMembers (hC : C ∈ classes) (hx : x ∈ C)
    (hnot : x ∉ furtherMembers classes) : C.head? = some x := by
  cases C with
  | nil => cases hx
  | cons y l =>
    rcases List.mem_cons.1 hx with rfl | hx
    · rfl
    · exact absurd (mem_furtherMembers.2 ⟨y :: l, hC, hx⟩) hnot

/-- The first member of a class is not a further one, in whatever class. -/
theorem notMem_furtherMembers_of_head? (hnodup : ∀ C ∈ classes, C.Nodup)
    (hdisjoint : classes.Pairwise List.Disjoint) (hC : C ∈ classes) (hx : C.head? = some x) :
    x ∉ furtherMembers classes := by
  intro hfurther
  obtain ⟨C', hC', hxC'⟩ := mem_furtherMembers.1 hfurther
  by_cases hCC : C = C'
  · subst hCC
    obtain ⟨l, rfl⟩ := List.head?_eq_some_iff.1 hx
    exact (List.nodup_cons.1 (hnodup _ hC)).1 hxC'
  · have : Std.Symm (List.Disjoint (α := α)) := ⟨fun _ _ h => h.symm⟩
    exact hdisjoint.forall hC hC' hCC (List.mem_of_mem_head? hx) (List.mem_of_mem_tail hxC')

variable [DecidableEq α]

/-- The members that are no further ones stand for the values. -/
theorem map_firstMembers_perm (hL : L.Nodup) (hM : M.Nodup) (hmem : ∀ y, y ∈ M ↔ ∃ x ∈ L, φ x = y)
    (hnodup : ∀ C ∈ classes, C.Nodup) (hsub : ∀ C ∈ classes, C ⊆ L)
    (hdisjoint : classes.Pairwise List.Disjoint)
    (hsame : ∀ x ∈ L, ∀ y ∈ L, φ x = φ y ↔ x = y ∨ ∃ C ∈ classes, x ∈ C ∧ y ∈ C) :
    ((L.filter (· ∉ furtherMembers classes)).map φ).Perm M := by
  refine (List.perm_ext_iff_of_nodup ((hL.filter _).map_on fun x hx y hy he => ?_) hM).2 fun y => ?_
  · obtain ⟨hx, hxf⟩ := List.mem_filter.1 hx
    obtain ⟨hy, hyf⟩ := List.mem_filter.1 hy
    rcases (hsame x hx y hy).1 he with rfl | ⟨C, hC, hxC, hyC⟩
    · rfl
    · have hfirst := head?_of_notMem_furtherMembers hC hxC (of_decide_eq_true hxf)
      rw [head?_of_notMem_furtherMembers hC hyC (of_decide_eq_true hyf)] at hfirst
      exact (Option.some.inj hfirst).symm
  rw [hmem, List.mem_map]
  constructor
  · rintro ⟨x, hx, rfl⟩
    exact ⟨x, (List.mem_filter.1 hx).1, rfl⟩
  · rintro ⟨x, hx, rfl⟩
    by_cases hxf : x ∈ furtherMembers classes
    · -- the first member of its class has the same value
      obtain ⟨C, hC, hxC⟩ := mem_furtherMembers.1 hxf
      have hxC := List.mem_of_mem_tail hxC
      obtain ⟨z, hz⟩ := Option.isSome_iff_exists.1 (List.isSome_head?.2 (List.ne_nil_of_mem hxC))
      have hzC := List.mem_of_mem_head? hz
      have hfirst := notMem_furtherMembers_of_head? hnodup hdisjoint hC hz
      exact ⟨z, List.mem_filter.2 ⟨hsub C hC hzC, decide_eq_true hfirst⟩,
        (hsame z (hsub C hC hzC) x hx).2 (.inr ⟨C, hC, hzC, hxC⟩)⟩
    · exact ⟨x, List.mem_filter.2 ⟨hx, decide_eq_true hxf⟩, rfl⟩

/-- Where the members of a class are mapped to one value, there is one value less for each further
member of a class. -/
theorem length_add_sum_of_classes (hL : L.Nodup) (hM : M.Nodup) (hmem : ∀ y, y ∈ M ↔ ∃ x ∈ L, φ x = y)
    (hnodup : ∀ C ∈ classes, C.Nodup) (hsub : ∀ C ∈ classes, C ⊆ L)
    (hdisjoint : classes.Pairwise List.Disjoint)
    (hsame : ∀ x ∈ L, ∀ y ∈ L, φ x = φ y ↔ x = y ∨ ∃ C ∈ classes, x ∈ C ∧ y ∈ C) :
    M.length + (classes.map fun C => C.length - 1).sum = L.length := by
  have hfurther : (L.filter (· ∈ furtherMembers classes)).Perm (furtherMembers classes) := by
    refine (List.perm_ext_iff_of_nodup (hL.filter _) (nodup_furtherMembers hnodup hdisjoint)).2 fun x => ?_
    rw [List.mem_filter, decide_eq_true_eq, and_iff_right_iff_imp]
    intro hx
    obtain ⟨C, hC, hx⟩ := mem_furtherMembers.1 hx
    exact hsub C hC (List.mem_of_mem_tail hx)
  have hsplit : (L.filter (· ∉ furtherMembers classes)).length + (furtherMembers classes).length =
      L.length := by
    rw [← hfurther.length_eq, ← List.countP_eq_length_filter, ← List.countP_eq_length_filter,
      List.length_eq_countP_add_countP (fun x => decide (x ∈ furtherMembers classes)), Nat.add_comm]
    simp
  rw [← (map_firstMembers_perm hL hM hmem hnodup hsub hdisjoint hsame).length_eq, List.length_map,
    ← length_furtherMembers, hsplit]

end Classes

namespace ProcessGraph

open Construction Net

variable {g : ProcessGraph} {n m : NodeId} {f k : FlowId} {G : List NodeId} {showEvents : Bool}
  {c : Construction} {gates : Nat} {place : FlowId → PlaceId}

/-! ## Ends that are merged -/

/-- The groups of ends of a subprocess that raise a common event on it, each group once. -/
def raisingGroups (g : ProcessGraph) : List (List NodeId) :=
  ((g.subprocessesInnermostFirst.flatMap fun n => (g.boundaryEventsOf (g.node n).id).map fun m =>
    g.endsRaising (g.node n).id (g.node m)).filter (!·.isEmpty)).dedup

theorem mem_raisingGroups : G ∈ g.raisingGroups ↔ G ≠ [] ∧ ∃ n ∈ g.subprocessesInnermostFirst,
    ∃ m ∈ g.boundaryEventsOf (g.node n).id, g.endsRaising (g.node n).id (g.node m) = G := by
  simp [raisingGroups, List.mem_filter, and_comm]

/-- Ends that raise an event are told by any one of them. -/
theorem endsRaising_eq {id id' : String} {event event' : Node} (hn : n ∈ g.endsRaising id event)
    (hn' : n ∈ g.endsRaising id' event') : g.endsRaising id event = g.endsRaising id' event' := by
  obtain ⟨trigger, activity, hkind, hinternal, hn⟩ := mem_endsRaising.1 hn
  obtain ⟨trigger', activity', hkind', hinternal', hn'⟩ := mem_endsRaising.1 hn'
  obtain ⟨-, hprocess, hend, hname⟩ := mem_raisingEnds.1 hn
  obtain ⟨-, hprocess', hend', hname'⟩ := mem_raisingEnds.1 hn'
  rw [endsRaising, endsRaising, hkind, hkind']
  dsimp only
  rw [if_pos hinternal, if_pos hinternal', raisingEnds, raisingEnds, ← hprocess, ← hprocess', ← hname,
    ← hname', ← hend, ← hend']

theorem eq_of_mem_raisingGroups {G' : List NodeId} (hG : G ∈ g.raisingGroups)
    (hG' : G' ∈ g.raisingGroups) (hn : n ∈ G) (hn' : n ∈ G') : G = G' := by
  obtain ⟨-, _, _, _, _, rfl⟩ := mem_raisingGroups.1 hG
  obtain ⟨-, _, _, _, _, rfl⟩ := mem_raisingGroups.1 hG'
  exact endsRaising_eq hn hn'

theorem nodup_of_mem_raisingGroups (hG : G ∈ g.raisingGroups) : G.Nodup := by
  obtain ⟨-, _, _, m, _, rfl⟩ := mem_raisingGroups.1 hG
  unfold endsRaising
  split
  · split
    · exact (nodup_select _).filter _
    · exact .nil
  · exact .nil

theorem isEnd_of_mem_raisingGroups (hG : G ∈ g.raisingGroups) (hn : n ∈ G) :
    index n < g.nodes.size ∧ (g.node n).kind.isEnd ∧ (g.node n).kind ≠ .endEvent .normal := by
  obtain ⟨-, _, _, _, _, rfl⟩ := mem_raisingGroups.1 hG
  obtain ⟨trigger, _, _, hinternal, hn⟩ := mem_endsRaising.1 hn
  obtain ⟨hlt, _, hkind, _⟩ := mem_raisingEnds.1 hn
  refine ⟨hlt, by rw [hkind]; rfl, ?_⟩
  rw [hkind]
  cases trigger <;> simp_all [BoundaryTrigger.isInternal, BoundaryTrigger.endTrigger]

/-- Both flows have one place: they enter normal ends of the root process without leaving a start, or
their ends raise a common event. -/
def Together (g : ProcessGraph) (f k : FlowId) : Prop :=
  f = k ∨ (entersRootEnd g (g.flow f) ∧ entersRootEnd g (g.flow k)) ∨
    ∃ G ∈ g.raisingGroups, (g.flow f).target ∈ G ∧ (g.flow k).target ∈ G

theorem merged_iff (hg : g.Linked) (hf : index f < g.flows.size) (hk : index k < g.flows.size) :
    Merged g (g.subprocessesInnermostFirst.map fun n => (g.node n).id) f k ↔
      ∃ G ∈ g.raisingGroups, (g.flow f).target ∈ G ∧ (g.flow k).target ∈ G := by
  constructor
  · rintro ⟨id, hid, m, hm, hfm, hkm⟩
    obtain ⟨n, hn, rfl⟩ := List.mem_map.1 hid
    have hfm := ((mem_raisingFlows hg).1 hfm).2
    exact ⟨_, mem_raisingGroups.2 ⟨List.ne_nil_of_mem hfm, n, hn, m, hm, rfl⟩, hfm,
      ((mem_raisingFlows hg).1 hkm).2⟩
  · rintro ⟨G, hG, hfG, hkG⟩
    obtain ⟨-, n, hn, m, hm, rfl⟩ := mem_raisingGroups.1 hG
    exact ⟨_, List.mem_map_of_mem hn, m, hm, (mem_raisingFlows hg).2 ⟨hf, hfG⟩,
      (mem_raisingFlows hg).2 ⟨hk, hkG⟩⟩

/-- The classes of flows that have one place. -/
def classes (g : ProcessGraph) : List (List FlowId) :=
  g.rootEndFlows :: g.raisingGroups.map fun G => G.flatMap fun n => (g.node n).incoming

theorem mem_flatMap_incoming (hg : g.Linked) :
    f ∈ (G.flatMap fun n => (g.node n).incoming) ↔ index f < g.flows.size ∧ (g.flow f).target ∈ G := by
  rw [List.mem_flatMap]
  constructor
  · rintro ⟨n, hn, hf⟩
    obtain ⟨hlt, rfl⟩ := (hg.mem_incoming n f).1 hf
    exact ⟨hlt, hn⟩
  · exact fun ⟨hlt, hf⟩ => ⟨_, hf, (hg.mem_incoming _ f).2 ⟨hlt, rfl⟩⟩

theorem mem_rootEndFlows : f ∈ g.rootEndFlows ↔ index f < g.flows.size ∧ entersRootEnd g (g.flow f) := by
  rw [rootEndFlows, List.mem_filter, mem_sortedFlows]

theorem exists_class_iff (hg : g.Linked) (hf : index f < g.flows.size) (hk : index k < g.flows.size) :
    (f = k ∨ ∃ C ∈ g.classes, f ∈ C ∧ k ∈ C) ↔ g.Together f k := by
  simp only [classes, List.mem_cons, exists_eq_or_imp, List.mem_map, exists_exists_and_eq_and,
    mem_rootEndFlows, mem_flatMap_incoming hg, hf, hk, true_and, Together]

theorem nodup_classes (hg : g.Normal) {C : List FlowId} (hC : C ∈ g.classes) : C.Nodup := by
  rcases List.mem_cons.1 hC with rfl | hC
  · exact (nodup_sortedFlows g).filter _
  · obtain ⟨G, hG, rfl⟩ := List.mem_map.1 hC
    refine List.nodup_flatMap.2 ⟨fun n _ => hg.linked.nodup_incoming n,
      (nodup_of_mem_raisingGroups hG).imp fun {a b} hne f ha hb => hne ?_⟩
    exact ((hg.linked.mem_incoming a f).1 ha).2.symm.trans ((hg.linked.mem_incoming b f).1 hb).2

theorem pairwise_classes (hg : g.Linked) : g.classes.Pairwise List.Disjoint := by
  refine List.pairwise_cons.2 ⟨fun C hC f hf hfC => ?_, List.pairwise_map.2 ?_⟩
  · obtain ⟨G, hG, rfl⟩ := List.mem_map.1 hC
    exact (isEnd_of_mem_raisingGroups hG ((mem_flatMap_incoming hg).1 hfC).2).2.2
      (kind_of_entersRootEnd (mem_rootEndFlows.1 hf).2).1
  · have hnodup : g.raisingGroups.Nodup := List.nodup_dedup _
    refine hnodup.imp_of_mem fun {G G'} hG hG' hne f hf hf' => hne ?_
    exact eq_of_mem_raisingGroups hG hG' ((mem_flatMap_incoming hg).1 hf).2
      ((mem_flatMap_incoming hg).1 hf').2

/-! ## The inventory -/

/-- The node shows a name on its transitions: a task or an intermediate event does, and a boundary event
where events are shown. -/
def Shows (g : ProcessGraph) (showEvents : Bool) (n : NodeId) : Prop :=
  (match (g.node n).kind with
    | .task | .catchEvent _ | .throwEvent _ => True
    | .boundaryEvent _ _ => showEvents = true
    | _ => False) ∧ ∃ name ∈ (g.node n).name, name ≠ ""

/-- The transition does the step that `addStep` left, as far as the places of flows are concerned. -/
structure Performs (g : ProcessGraph) (place : FlowId → PlaceId) (n : Net) (s : Step)
    (e : TransitionId × Transition) : Prop where
  name : e.2.name = s.name
  label : e.2.label = s.label
  takes : ∀ k, index k < g.flows.size →
    (Arc.input (place k) e.1 ∈ n.arcs ↔ ∃ f ∈ s.takes, place f = place k)
  gives : ∀ k, index k < g.flows.size →
    (Arc.output e.1 (place k) ∈ n.arcs ↔ ∃ f ∈ s.gives, place f = place k)

/-- What the net of a process in gateway form holds, where `place` is the place of each flow. -/
structure Inventory (g : ProcessGraph) (showEvents : Bool) (place : FlowId → PlaceId) (n : Net) :
    Prop where
  /-- Each flow has a live place that bears the name of a flow which it shares the place with. -/
  live : ∀ f, index f < g.flows.size → ∃ x k, n.place? (place f) = some x ∧ index k < g.flows.size ∧
    place k = place f ∧ x.name = flowPlaceName (flowRole g (g.flow k)) (g.flow k)
  /-- Flows into the sink share a place, and those into ends that raise a common event. -/
  shared : ∀ f k, index f < g.flows.size → index k < g.flows.size →
    (place f = place k ↔ g.Together f k)
  /-- There is a place for each flow, one less for each further flow into the sink and for each further
  end of a group, and one more for each message on a subprocess. -/
  places : n.livePlaces.length + (g.rootEndFlows.length - 1) +
    (g.raisingGroups.map fun G => G.length - 1).sum = g.flows.size + g.messageCount
  /-- The transitions do the steps of the catalogue, one after the other. -/
  steps : List.Forall₂ (g.Performs place n) (g.steps showEvents) n.liveTransitions
  /-- The place that the ends of a group share is fed by what leads to one of them. -/
  fed : ∀ G ∈ g.raisingGroups, ∃ p, n.hasPlace p ∧
    (∀ f, index f < g.flows.size → (g.flow f).target ∈ G → place f = p) ∧
    ∀ t, Arc.output t p ∈ n.arcs ↔ ∃ s x, (s, t, x) ∈ (g.steps showEvents).zip n.liveTransitions ∧
      ∃ f ∈ s.gives, (g.flow f).target ∈ G
  /-- Each node has as many transitions as its kind says, and there are no others. -/
  transitions : n.liveTransitions.length = (g.sortedNodes.map g.stepCount).sum
  owned : ∀ m, index m < g.nodes.size → owned m (g.steps showEvents) = g.stepCount m
  labelled : ∀ s ∈ g.steps showEvents, s.label.isSome ↔ g.Shows showEvents s.owner

theorem isSome_stepLabel?_iff : (g.stepLabel? showEvents n).isSome ↔ g.Shows showEvents n := by
  have hname : ((g.node n).displayName?).isSome ↔ ∃ name ∈ (g.node n).name, name ≠ "" := by
    simp [Node.displayName?, Option.isSome_filter, Option.any_eq_true]
  unfold stepLabel? Shows
  cases (g.node n).kind with
  | task | catchEvent | throwEvent => simpa using hname
  | boundaryEvent =>
    cases showEvents with
    | false => simp [boundaryLabel]
    | true => simpa [boundaryLabel] using hname
  | subprocess | startEvent | endEvent | gateway => simp

end ProcessGraph

namespace Construction

open Net ProcessGraph

variable {g normal : ProcessGraph} {n m : NodeId} {f k : FlowId} {G : List NodeId} {showEvents : Bool}
  {c c' : Construction} {gates : Nat} {place : FlowId → PlaceId} {l : List JoinedSubprocess}

/-! ## Places that are shared -/

/-- The flows into ends that are merged have one place, from which the event takes. -/
theorem Ledger.place_eq_of_merged {done : List String} (hg : g.Linked) (hfin : Finished g l c)
    (hl : Ledger g done gates (g.steps showEvents) place c)
    (hdone : done = g.subprocessesInnermostFirst.map fun n => (g.node n).id) (h : Merged g done f k) :
    place f = place k := by
  obtain ⟨id, hid, m, hm, hf, hk⟩ := h
  rw [hdone] at hid
  obtain ⟨n, hn, rfl⟩ := List.mem_map.1 hid
  obtain ⟨s, hs, hw⟩ := exists_record hfin.wired (mem_subprocessesInnermostFirst.1 hn).2
  obtain ⟨_, hh⟩ := hfin.handled s hs
  obtain ⟨trigger, activity, hkind, hinternal, _⟩ :=
    mem_endsRaising.1 ((mem_raisingFlows hg).1 hf).2
  obtain ⟨t, p, ht, _⟩ := hh.internal m (hw.joined.id.symm ▸ hm) ⟨trigger, activity, hkind, hinternal⟩
  let step := g.boundaryStep showEvents n m (g.raisingFlows (g.node n).id (g.node m))
  have hstep : step ∈ g.steps showEvents := by
    have hevent : step ∈ g.finishSteps showEvents n :=
      List.mem_append_left _ (List.mem_map.2 ⟨m, hm, rfl⟩)
    simp only [ProcessGraph.steps, List.mem_append]
    exact .inl (.inr (List.mem_flatMap.2 ⟨n, hn, hevent⟩))
  obtain ⟨⟨u, x⟩, _, hu⟩ := exists_of_forall₂ hl.listed hstep
  have hname : x.name = boundaryName (g.node m).id s.parent := by
    rw [hu.name, hw.joined.parent]
    rfl
  obtain rfl : t = u := ht.bears.unique hl.consistent ⟨x, hu.live, hname⟩
  have htaken : ∀ j ∈ g.raisingFlows (g.node n).id (g.node m), place j = p := fun j hj =>
    (ht.input _).1 ((hu.takes _ (hl.lodged.live j ((mem_raisingFlows hg).1 hj).1).2).2 ⟨j, hj, rfl⟩)
  rw [htaken f hf, htaken k hk]

/-- The places other than gates stand for the classes of flows. -/
theorem Lodged.length_livePlaces {done : List String} (hg : g.Normal) (hs : Sound g c)
    (h : Lodged g done gates place c)
    (hshared : ∀ f k, index f < g.flows.size → index k < g.flows.size →
      (place f = place k ↔ g.Together f k)) :
    c.net.livePlaces.length + (g.classes.map fun C => C.length - 1).sum = g.flows.size + gates := by
  obtain ⟨ps, hnodup, hlen, hps⟩ := h.gates
  have hplaces := c.net.nodup_placeIds
  have hsplit : (c.net.placeIds.filter (· ∉ ps)).length + gates = c.net.placeIds.length := by
    have hperm : (c.net.placeIds.filter (· ∈ ps)).Perm ps := by
      refine (List.perm_ext_iff_of_nodup (hplaces.filter _) hnodup).2 fun p => ?_
      rw [List.mem_filter, decide_eq_true_eq, and_iff_right_iff_imp, mem_placeIds]
      exact fun hp => ((hps p).1 hp).live
    rw [← hlen, ← hperm.length_eq, ← List.countP_eq_length_filter, ← List.countP_eq_length_filter,
      List.length_eq_countP_add_countP (fun p => decide (p ∈ ps)), Nat.add_comm]
    simp
  have hsize : g.sortedFlows.length = g.flows.size := by
    rw [(perm_sortedFlows g).length_eq, Arena.length_ids]
  have hcount := length_add_sum_of_classes (φ := place) (nodup_sortedFlows g) (hplaces.filter (· ∉ ps))
    (fun p => ?_) (fun C => nodup_classes hg) (fun C hC f hf => ?_) (pairwise_classes hg.linked)
    fun f hf k hk => ?_
  · rw [hsize] at hcount
    have hids : c.net.placeIds.length = c.net.livePlaces.length := List.length_map _
    omega
  · rw [List.mem_filter, mem_placeIds, decide_eq_true_eq, hps]
    constructor
    · rintro ⟨hlive, hgate⟩
      obtain ⟨x, hx⟩ := hasPlace_iff.1 hlive
      obtain ⟨f, hf, _⟩ := h.flow p x hx fun hrole => hgate ⟨x, hx, hrole⟩
      exact ⟨f, mem_sortedFlows.2 (hs.bound f p hf), h.found f p hf hlive⟩
    · rintro ⟨f, hf, rfl⟩
      exact h.live f (mem_sortedFlows.1 hf)
  · rcases List.mem_cons.1 hC with rfl | hC
    · exact mem_sortedFlows.2 (mem_rootEndFlows.1 hf).1
    · obtain ⟨G, _, rfl⟩ := List.mem_map.1 hC
      exact mem_sortedFlows.2 ((mem_flatMap_incoming hg.linked).1 hf).1
  · have hf := mem_sortedFlows.1 hf
    have hk := mem_sortedFlows.1 hk
    rw [hshared f k hf hk, exists_class_iff hg.linked hf hk]

/-- Where `addNodes` succeeds each end has a flow into it. -/
theorem incoming_ne_nil_of_addNodes (h : addNodes g c = .ok () c') (hn : index n < g.nodes.size)
    (hend : (g.node n).kind.isEnd) : (g.node n).incoming ≠ [] := by
  obtain ⟨d, d', _, hrun, _⟩ := exists_of_mem_forM (R := fun _ _ => True) (fun _ => trivial)
    (fun _ _ _ _ _ => trivial) (fun _ _ _ _ _ => trivial) h (mem_sortedNodes.2 hn)
  intro hnil
  unfold addNode at hrun
  cases hkind : (g.node n).kind with
  | endEvent trigger =>
    simp only [hkind] at hrun
    obtain ⟨p, _, hp, _⟩ := bind_eq_ok.1 hrun
    obtain ⟨f, hf, _⟩ := inPlace_eq_ok.1 hp
    rw [hnil] at hf
    cases hf
  | task | subprocess | startEvent | catchEvent | throwEvent | boundaryEvent | gateway =>
    rw [hkind] at hend
    cases hend

/-- Each end of a group has one flow into it. -/
theorem length_flatMap_incoming (hg : g.Normal) (h : addNodes g c = .ok () c')
    (hG : G ∈ g.raisingGroups) : (G.flatMap fun n => (g.node n).incoming).length = G.length := by
  have hone : ∀ n ∈ G, (g.node n).incoming.length = 1 := by
    intro n hn
    obtain ⟨hlt, hend, _⟩ := isEnd_of_mem_raisingGroups hG hn
    exact Nat.le_antisymm (slim hg (NodeKind.isGateway_of_isEnd hend)).1
      (List.length_pos_iff.2 (incoming_ne_nil_of_addNodes h hlt hend))
  rw [List.length_flatMap, List.map_congr_left hone, List.map_const', List.sum_replicate, smul_eq_mul,
    Nat.mul_one]

theorem forall₂_mem_zip {α β : Type} {R : α → β → Prop} {xs : List α} {ys : List β}
    (h : List.Forall₂ R xs ys) : List.Forall₂ (fun x y => (x, y) ∈ xs.zip ys ∧ R x y) xs ys :=
  List.forall₂_iff_zip.2 ⟨h.length_eq, fun hmem => ⟨hmem, (List.forall₂_iff_zip.1 h).2 hmem⟩⟩

/-- A flow into a normal end of the root process has the sink. -/
theorem Lodged.rootSink_eq {done : List String} (hg : g.Linked) (hs : Sound g c)
    (h : Lodged g done gates place c)
    (hsink : ∀ f p, c.flowPlaces.lookup f = some p → entersRootEnd g (g.flow f) → c.rootSink = some p)
    (hf : index f < g.flows.size) (henters : entersRootEnd g (g.flow f)) :
    c.rootSink = some (place f) := by
  obtain ⟨k, hk⟩ := h.exists_lookup hf
  have hplace := h.found k _ hk (h.live f hf).1
  refine hsink k _ hk ?_
  rcases h.same k f (hs.bound k _ hk) hf hplace with rfl | ⟨henters', _⟩ | ⟨_, _, _, _, _, hraising⟩
  · exact henters
  · exact henters'
  · exact absurd (kind_of_entersRootEnd henters).1 (raising_of_mem hg hraising).ne_normal

/-- The place of a group is fed by the steps that give to flows into its ends. -/
theorem fed_of_mem_raisingGroups (hg : g.Linked) (hn : c.net.Consistent)
    (hshared : ∀ f k, index f < g.flows.size → index k < g.flows.size →
      (place f = place k ↔ g.Together f k))
    (hsteps : List.Forall₂ (g.Performs place c.net) (g.steps showEvents) c.net.liveTransitions)
    (hG : G ∈ g.raisingGroups) (hf : index f < g.flows.size) (htarget : (g.flow f).target ∈ G) :
    (∀ k, index k < g.flows.size → (g.flow k).target ∈ G → place k = place f) ∧
      ∀ t, Arc.output t (place f) ∈ c.net.arcs ↔
        ∃ s x, (s, t, x) ∈ (g.steps showEvents).zip c.net.liveTransitions ∧
          ∃ k ∈ s.gives, (g.flow k).target ∈ G := by
  have hnormal := (isEnd_of_mem_raisingGroups hG htarget).2.2
  have htogether : ∀ k, index k < g.flows.size → (place k = place f ↔ (g.flow k).target ∈ G) := by
    intro k hk
    rw [hshared k f hk hf]
    constructor
    · rintro (rfl | ⟨_, hroot⟩ | ⟨G', hG', hkG', hfG'⟩)
      · exact htarget
      · exact absurd (kind_of_entersRootEnd hroot).1 hnormal
      · exact eq_of_mem_raisingGroups hG' hG hfG' htarget ▸ hkG'
    · exact fun hk => .inr (.inr ⟨G, hG, hk, htarget⟩)
  refine ⟨fun k hk hkG => (htogether k hk).2 hkG, fun t => ⟨fun ha => ?_, ?_⟩⟩
  · obtain ⟨x, hx⟩ := hasTransition_iff.1 (hn.liveTransition _ ha)
    obtain ⟨s, hs, hmem, hperforms⟩ :=
      exists_of_forall₂ (forall₂_mem_zip hsteps).flip (mem_liveTransitions.2 hx)
    obtain ⟨k, hk, hkf⟩ := (hperforms.gives f hf).1 ha
    exact ⟨s, x, hmem, k, hk, (htogether k ((fits_of_mem_steps hg hs).gives k hk)).1 hkf⟩
  · rintro ⟨s, x, hmem, k, hk, hkG⟩
    have hstep := (List.of_mem_zip hmem).1
    exact (((List.forall₂_iff_zip.1 hsteps).2 hmem).gives f hf).2
      ⟨k, hk, (htogether k ((fits_of_mem_steps hg hstep).gives k hk)).2 hkG⟩

/-- The inventory of what `construct` leaves. -/
theorem inventory_of_construct (hg : g.Normal) (hsound : g.Sound) (hsupported : Supported g)
    (hfin : Finished g l c) (h : construct g showEvents (start g) = .ok () c) :
    ∃ place, Ledger g (g.subprocessesInnermostFirst.map fun n => (g.node n).id) g.messageCount
      (g.steps showEvents) place c ∧ Inventory g showEvents place c.net := by
  obtain ⟨⟨place, hl⟩, hsink⟩ := ledger_of_construct hg hsupported h
  obtain ⟨_, _, _, _, _, _, _, hnodes, _⟩ := construct_eq_ok h
  have hlinked := hg.linked
  have hlodged := hl.lodged
  have hs := hfin.sound
  have hlive : ∀ f, index f < g.flows.size → ¬ IsGate c (place f) := fun f hf => (hlodged.live f hf).2
  -- what the ledger says of the subprocesses that are done holds of the graph when all of them are
  have hshared : ∀ f k, index f < g.flows.size → index k < g.flows.size →
      (place f = place k ↔ g.Together f k) := by
    intro f k hf hk
    constructor
    · intro he
      exact (hlodged.same f k hf hk he).imp_right
        (Or.imp_right fun hm => (merged_iff hlinked hf hk).1 hm)
    · rintro (rfl | ⟨hf', hk'⟩ | hmerged)
      · rfl
      · have hsinkf := hlodged.rootSink_eq hlinked hs hsink hf hf'
        exact Option.some.inj (hsinkf.symm.trans (hlodged.rootSink_eq hlinked hs hsink hk hk'))
      · exact hl.place_eq_of_merged hlinked hfin rfl ((merged_iff hlinked hf hk).2 hmerged)
  have hsteps : List.Forall₂ (g.Performs place c.net) (g.steps showEvents) c.net.liveTransitions :=
    hl.listed.imp fun _ _ hd => ⟨hd.name, hd.label, fun k hk => hd.takes _ (hlive k hk),
      fun k hk => hd.gives _ (hlive k hk)⟩
  refine ⟨place, hl, ?_, hshared, ?_, hsteps, fun G hG => ?_, ?_, fun m => owned_steps hsound,
    fun s hstep => ?_⟩
  · intro f hf
    obtain ⟨hplace, hgate⟩ := hlodged.live f hf
    obtain ⟨x, hx⟩ := hasPlace_iff.1 hplace
    obtain ⟨k, hk, hname⟩ := hlodged.flow _ x hx fun hrole => hgate ⟨x, hx, hrole⟩
    exact ⟨x, k, hx, hs.bound k _ hk, hlodged.found k _ hk hplace, hname⟩
  · have hcount := hlodged.length_livePlaces hg hs hshared
    have hgroups : ((g.raisingGroups.map fun G => G.flatMap fun n => (g.node n).incoming).map
        fun C => C.length - 1) = g.raisingGroups.map fun G => G.length - 1 := by
      rw [List.map_map]
      exact List.map_congr_left fun G hG =>
        congrArg (· - 1) (length_flatMap_incoming hg hnodes hG)
    rw [classes, List.map_cons, List.sum_cons, hgroups] at hcount
    omega
  · obtain ⟨e, he⟩ := List.exists_mem_of_ne_nil _ (mem_raisingGroups.1 hG).1
    obtain ⟨hlt, hend, -⟩ := isEnd_of_mem_raisingGroups hG he
    obtain ⟨f, hf⟩ := List.exists_mem_of_ne_nil _ (incoming_ne_nil_of_addNodes hnodes hlt hend)
    obtain ⟨hflt, rfl⟩ := (hlinked.mem_incoming e f).1 hf
    exact ⟨place f, (hlodged.live f hflt).1,
      fed_of_mem_raisingGroups hlinked hl.consistent hshared hsteps hG hflt he⟩
  · rw [← hl.listed.length_eq, length_steps hsound]
  · rw [(label_of_mem_steps hstep).2, isSome_stepLabel?_iff]

end Construction

namespace ProcessDeclaration

open Construction ProcessGraph

variable {d : ProcessDeclaration} {g : ProcessGraph}

/-- `toAcceptingNet` drops nothing and invents nothing: the places and the transitions of the net of a
graph that was built are those of the inventory of the graph in gateway form. -/
theorem inventory_of_toAcceptingNet {showEvents : Bool} {a : AcceptingNet} (hbuild : d.build = .ok g)
    (h : g.toAcceptingNet showEvents = .ok a) :
    ∃ normal place, g.normalize = .ok normal ∧ Inventory normal showEvents place a.net := by
  obtain ⟨hfirst, normal, c, hnormal, hc, rfl⟩ := toAcceptingNet_eq_ok h
  obtain ⟨_, hd⟩ := declares_of_build hbuild
  obtain ⟨l, hfin⟩ := finished_of_build hbuild hnormal hc
  obtain ⟨place, -, hinventory⟩ := inventory_of_construct (normal_normalize hd.linked hd.distinct hnormal)
    ((sound_of_build hbuild).normalize hnormal)
    ((refines_normalize hnormal).supported (supported_of_firstUnsupported? hfirst)) hfin hc
  exact ⟨normal, place, hnormal, hinventory⟩

/-- A subprocess with two ends that raise the same error, and with a message on it. -/
def census : ProcessDeclaration where
  processId := "p"
  name := "p"
  nodes := [⟨"a", none, .startEvent .normal, "p"⟩, ⟨"caught", some "Oops", .boundaryEvent .error "sp", "p"⟩,
    ⟨"done", none, .endEvent .normal, "p"⟩, ⟨"handled", none, .endEvent .normal, "p"⟩,
    ⟨"note", some "Note", .boundaryEvent .message "sp", "p"⟩, ⟨"noted", none, .endEvent .normal, "p"⟩,
    ⟨"one", some "Oops", .endEvent .error, "sp"⟩, ⟨"over", none, .endEvent .normal, "sp"⟩,
    ⟨"s", none, .startEvent .normal, "sp"⟩, ⟨"sp", none, .subprocess 0, "p"⟩,
    ⟨"two", some "Oops", .endEvent .error, "sp"⟩, ⟨"x", none, .gateway .exclusive .diverging, "sp"⟩]
  flows := [⟨"f1", none, .sequence, "a", "sp", none⟩, ⟨"f2", none, .sequence, "sp", "done", none⟩,
    ⟨"f3", none, .sequence, "caught", "handled", none⟩, ⟨"f4", none, .sequence, "note", "noted", none⟩,
    ⟨"h1", none, .sequence, "s", "x", none⟩, ⟨"h2", none, .sequence, "x", "one", none⟩,
    ⟨"h3", none, .sequence, "x", "over", none⟩, ⟨"h4", none, .sequence, "x", "two", none⟩]

theorem converts_census : census.converts fun _ _ c =>
    decide (c.net.livePlaces.length = 6) && decide (c.net.liveTransitions.length = 7) := by
  delta converts build Construction.construct addFlowPlaces addNodes addNode addGateway
    joinSubprocesses joinSubprocess normalEndPlaces addTaskBoundaries addSubprocessBoundaries
    addSubprocessBoundary mergeRaisingEnds raisingEnds terminateSubprocess terminateRoot startsOf
    endsOf boundaryEventsOf terminationsOf ProcessGraph.normalize firstUnsupported?
  simp only [sortedPlaces_eq_insertionSort, sortedNodes_eq_insertionSort,
    sortedFlows_eq_insertionSort, select_eq_insertionSort,
    subprocessesInnermostFirst_eq_insertionSort]
  decide +kernel

/-- Its eight flows have six places: three of them share the sink, two enter ends that are merged, and the
message has a gate. -/
theorem inventory_census : ∃ g a normal place, census.build = .ok g ∧ g.toAcceptingNet true = .ok a ∧
    g.normalize = .ok normal ∧ Inventory normal true place a.net ∧ a.net.livePlaces.length = 6 ∧
    a.net.liveTransitions.length = 7 := by
  obtain ⟨g, _, c, hbuild, -, -, ha, hcheck⟩ := exists_of_converts converts_census
  obtain ⟨hplaces, htransitions⟩ := Bool.and_eq_true_iff.1 hcheck
  obtain ⟨normal, place, hnormal, hinventory⟩ := inventory_of_toAcceptingNet hbuild ha
  exact ⟨g, _, normal, place, hbuild, ha, hnormal, hinventory, of_decide_eq_true hplaces,
    of_decide_eq_true htransitions⟩

end ProcessDeclaration

end ProcessNet
