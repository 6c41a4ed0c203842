/-
Parallel gateways and their branches. Where no event is on a subprocess, a live place is that of a flow, and
only flows into the sink have one together. So the transition of a parallel gateway takes from one place for
each flow into the gateway and puts into one for each flow out of it, but for those flows that lead straight
to ends of the root process: they share the sink, which gets one token for all of them.
-/
import ProcessNet.Proofs.Conversion.Interrupted
import ProcessNet.Proofs.Conversion.Inventory
import ProcessNet.Proofs.Process.Attached

namespace ProcessNet

namespace ProcessGraph

open Identifier Construction

variable {g g' : ProcessGraph} {n m : NodeId} {f : FlowId}

/-! ## Flows into ends of the root process -/

/-- The flow `entersRootEnd`, and no other flow enters that end. -/
def EndsAlone (g : ProcessGraph) (f : FlowId) : Prop :=
  entersRootEnd g (g.flow f) ∧ (g.node (g.flow f).target).incoming = [f]

instance (g : ProcessGraph) : DecidablePred g.EndsAlone :=
  fun _ => inferInstanceAs (Decidable (_ ∧ _))

/-- The flow leaves a gateway. -/
structure LeavesGateway (g : ProcessGraph) (f : FlowId) : Prop where
  bound : index f < g.flows.size
  gateway : (g.node (g.flow f).source).kind.isGateway

theorem LeavesGateway.not_isStart (h : LeavesGateway g f) :
    (g.node (g.flow f).source).kind.isStart = false :=
  Bool.eq_false_iff.2 fun hstart =>
    Bool.false_ne_true ((NodeKind.isGateway_of_isStart hstart).symm.trans h.gateway)

theorem LeavesGateway.endsAlone_iff (h : LeavesGateway g f) : g.EndsAlone f ↔
    ((g.node (g.flow f).target).kind = .endEvent .normal ∧
      (g.node (g.flow f).target).process = g.processId) ∧ (g.node (g.flow f).target).incoming = [f] := by
  simp [EndsAlone, entersRootEnd, h.not_isStart, isRoot]

theorem eq_singleton_iff_of_perm {α : Type} {l l' : List α} {x : α} (h : l.Perm l') :
    l = [x] ↔ l' = [x] :=
  ⟨fun he => List.perm_singleton.1 (he ▸ h.symm), fun he => List.perm_singleton.1 (he ▸ h)⟩

/-- A flow that keeps its ends leads to the same kind of end, where that has the same flows. -/
theorem endsAlone_iff_of_same (hr : Refines g g') (hf : LeavesGateway g f) (hf' : LeavesGateway g' f)
    (htarget : (g'.flow f).target = (g.flow f).target) (hlt : index (g.flow f).target < g.nodes.size)
    (hperm : (g'.node (g.flow f).target).incoming.Perm (g.node (g.flow f).target).incoming) :
    g'.EndsAlone f ↔ g.EndsAlone f := by
  obtain ⟨-, hprocess, hkind⟩ := hr.id_eq hlt
  rw [hf.endsAlone_iff, hf'.endsAlone_iff, htarget, hprocess, hkind, hr.processId,
    eq_singleton_iff_of_perm hperm]

theorem endsAlone_joinIncoming (hg : g.Linked) (hn : index n < g.nodes.size)
    (hlen : 1 < (g.node n).incoming.length) (h : g.joinIncoming n = .ok g') (hf : LeavesGateway g f) :
    LeavesGateway g' f ∧ (g'.EndsAlone f ↔ g.EndsAlone f) := by
  have hr := rerouted_joinIncoming hg hn h
  have hflow := hr.flow f hf.bound
  have hsource : (g'.flow f).source = (g.flow f).source := by
    rw [hflow, source_leadInto]
  have hf' : LeavesGateway g' f := by
    refine ⟨hr.flowCount ▸ Nat.lt_succ_of_lt hf.bound, ?_⟩
    rw [hsource, ((refines_joinIncoming h).id_eq (hg.source f hf.bound)).2.2]
    exact hf.gateway
  refine ⟨hf', ?_⟩
  by_cases htarget : (g.flow f).target = n
  · -- Several flows enter the node, and this one enters its gateway afterwards.
    refine iff_of_false (fun he => ?_) fun he => ?_
    · have hkind := ((hf'.endsAlone_iff.1 he).1).1
      have hgateway := congrArg Node.kind (hr.bare g.nodes.next)
      rw [hflow, leadInto, if_pos htarget] at hkind
      rw [if_pos rfl] at hgateway
      cases hgateway.symm.trans hkind
    · have hone := congrArg List.length he.2
      rw [htarget] at hone
      exact Nat.ne_of_gt hlen hone
  · refine endsAlone_iff_of_same (refines_joinIncoming h) hf hf' ?_ (hg.target f hf.bound)
      (perm_incoming_of_join hg hn h (hg.target f hf.bound) htarget)
    rw [hflow, leadInto, if_neg htarget]

theorem endsAlone_splitOutgoing (hg : g.Linked) (hn : index n < g.nodes.size)
    (hkind : (g.node n).kind.isGateway = false) (h : g.splitOutgoing n = .ok g')
    (hf : LeavesGateway g f) : LeavesGateway g' f ∧ (g'.EndsAlone f ↔ g.EndsAlone f) := by
  have hr := rerouted_splitOutgoing hg hn h
  have hsame : g'.flow f = g.flow f := by
    rw [hr.flow f hf.bound, leadOutOf, if_neg]
    intro he
    have hgateway := hf.gateway
    rw [he, hkind] at hgateway
    cases hgateway
  have hf' : LeavesGateway g' f := by
    refine ⟨hr.flowCount ▸ Nat.lt_succ_of_lt hf.bound, ?_⟩
    rw [hsame, ((refines_splitOutgoing h).id_eq (hg.source f hf.bound)).2.2]
    exact hf.gateway
  exact ⟨hf', endsAlone_iff_of_same (refines_splitOutgoing h) hf hf' (by rw [hsame])
    (hg.target f hf.bound) (perm_incoming_of_split hg hn h (hg.target f hf.bound))⟩

/-- Which flows from gateways share the sink in the gateway form that `normalize` gives. -/
theorem entersRootEnd_normalize_iff (hg : g.Linked) (hd : g.Distinct) (hf : LeavesGateway g f)
    (h : g.normalize = .ok g') : entersRootEnd g' (g'.flow f) ↔ g.EndsAlone f := by
  obtain ⟨hf', he⟩ : LeavesGateway g' f ∧ (g'.EndsAlone f ↔ g.EndsAlone f) := by
    refine keeps_normalize (P := fun g' => LeavesGateway g' f ∧ (g'.EndsAlone f ↔ g.EndsAlone f)) ?_ ?_
      hg hd ⟨hf, Iff.rfl⟩ h
    · rintro g₁ g₂ n hl hn - hlen ⟨hf₁, he₁⟩ hjoin
      obtain ⟨hf₂, he₂⟩ := endsAlone_joinIncoming hl hn hlen hjoin hf₁
      exact ⟨hf₂, he₂.trans he₁⟩
    · rintro g₁ g₂ n hl hn hkind - ⟨hf₁, he₁⟩ hsplit
      obtain ⟨hf₂, he₂⟩ := endsAlone_splitOutgoing hl hn hkind hsplit hf₁
      exact ⟨hf₂, he₂.trans he₁⟩
  rw [← he]
  refine ⟨fun henters => ⟨henters, ?_⟩, And.left⟩
  obtain ⟨hkind, -⟩ := kind_of_entersRootEnd henters
  have hnormal := normal_normalize hg hd h
  have hslim := inGatewayForm_iff.1 hnormal.form (g'.flow f).target (by rw [hkind]; rfl)
  have hmem := (hnormal.linked.mem_incoming _ f).2 ⟨hf'.bound, rfl⟩
  obtain ⟨k, hk⟩ := List.length_eq_one_iff.1 (Nat.le_antisymm hslim.1 (List.length_pos_of_mem hmem))
  rw [hk] at hmem ⊢
  rw [List.mem_singleton.1 hmem]

/-! ## Graphs without events on subprocesses -/

/-- No event is on a subprocess. -/
def Undisturbed (g : ProcessGraph) : Prop :=
  ∀ n, (g.node n).kind.isSubprocess → g.boundaryEventsOf (g.node n).id = []

theorem Refines.undisturbed (hr : Refines g g') (h : g.Undisturbed) : g'.Undisturbed := by
  intro n hkind
  have hkind := (hr.isSubprocess_iff n).1 hkind
  have hn := lt_of_isSubprocess hkind
  refine List.eq_nil_iff_forall_not_mem.2 fun m hm => ?_
  rw [mem_boundaryEventsOf, hr.node_iff (P := fun x => ∃ trigger, x.kind = .boundaryEvent trigger (g'.node n).id)
    (fun _ => Iff.rfl) (fun x d hd ⟨_, hk⟩ => by rw [hd] at hk; cases hk), (hr.id_eq hn).1] at hm
  exact List.not_mem_nil (h n hkind ▸ mem_boundaryEventsOf.2 hm)

theorem Undisturbed.raisingGroups (h : g.Undisturbed) : g.raisingGroups = [] := by
  refine List.eq_nil_iff_forall_not_mem.2 fun G hG => ?_
  obtain ⟨-, n, hn, m, hm, -⟩ := mem_raisingGroups.1 hG
  rw [h n (mem_subprocessesInnermostFirst.1 hn).2] at hm
  cases hm

theorem Undisturbed.messageCount (h : g.Undisturbed) : g.messageCount = 0 := by
  refine List.sum_eq_zero fun k hk => ?_
  obtain ⟨n, hn, rfl⟩ := List.mem_map.1 hk
  rw [messagesOf, h n (mem_subprocessesInnermostFirst.1 hn).2]
  rfl

end ProcessGraph

/-! ## Arcs of a transition -/

/-- The arcs of one kind at a transition. -/
def Net.arcsAt (n : Net) (t : TransitionId) (kind : ArcKind) : List Arc :=
  n.arcs.filter fun a => a.transition = t ∧ a.kind = kind

/-- The arcs of one kind at a transition are told by their places. -/
theorem Net.perm_arcsAt {n : Net} {t : TransitionId} {kind : ArcKind} {ps : List PlaceId}
    (hn : n.Consistent) (hps : ps.Nodup) (h : ∀ p, ⟨p, t, kind⟩ ∈ n.arcs ↔ p ∈ ps) :
    (n.arcsAt t kind).Perm (ps.map fun p => ⟨p, t, kind⟩) := by
  refine (List.perm_ext_iff_of_nodup (hn.mirrored.nodup.filter _)
    (hps.map fun p q he => congrArg Arc.place he)).2 fun a => ?_
  rw [List.mem_filter, decide_eq_true_eq, List.mem_map]
  constructor
  · rintro ⟨ha, rfl, rfl⟩
    exact ⟨a.place, (h a.place).1 ha, rfl⟩
  · rintro ⟨p, hp, rfl⟩
    exact ⟨(h p).2 hp, rfl, rfl⟩

/-- What the transition of a gateway does, where `place` is the place of each flow. -/
structure Construction.Conserves (g : ProcessGraph) (place : FlowId → PlaceId) (net : Net) (n : NodeId)
    (t : TransitionId) : Prop where
  bears : ∀ u, net.bears [stepName (g.node n).id (g.node n).process] u ↔ u = t
  /-- There is one input arc for each flow into the gateway. -/
  inputs : (net.arcsAt t .input).Perm ((g.node n).incoming.map fun f => .input (place f) t)
  /-- There is one output arc for each place of a flow out of the gateway. -/
  outputs : (net.arcsAt t .output).Perm (((g.node n).outgoing.map place).dedup.map (.output t))
  /-- Only flows that lead straight to ends of the root process have a place together. -/
  shared : ∀ f ∈ (g.node n).outgoing, ∀ k ∈ (g.node n).outgoing,
    (place f = place k ↔ f = k ∨ g.EndsAlone f ∧ g.EndsAlone k)
  /-- So there is an output arc for each flow, one less for each further one of those. -/
  branches : (net.arcsAt t .output).length + (((g.node n).outgoing.filter g.EndsAlone).length - 1) =
    (g.node n).outgoing.length
  enabled : ∀ m, net.isEnabled t m ↔ ∀ f ∈ (g.node n).incoming, 0 < m.tokens (place f)
  /-- A firing takes a token for each flow into the gateway, and puts one into each place behind it. -/
  fires : ∀ m m', net.fire m t = .ok m' → ∀ q, m'.tokens q =
    (if Arc.reset q t ∈ net.arcs then 0 else m.tokens q - ((g.node n).incoming.map place).count q) +
      ((g.node n).outgoing.map place).dedup.count q
  /-- No place in front of the gateway is emptied instead. -/
  spared : ∀ f ∈ (g.node n).incoming, Arc.reset (place f) t ∉ net.arcs

namespace Construction

open Identifier Net ProcessGraph

variable {g : ProcessGraph} {c : Construction} {n : NodeId} {f k : FlowId} {place : FlowId → PlaceId}
  {s : Step} {e : TransitionId × Transition} {ins outs : List FlowId}

/-- The number of places that flows have, where some of them share one. -/
theorem length_dedup_map {alone : FlowId → Prop} [DecidablePred alone] {l : List FlowId} (hl : l.Nodup)
    (h : ∀ f ∈ l, ∀ k ∈ l, (place f = place k ↔ f = k ∨ alone f ∧ alone k)) :
    ((l.map place).dedup).length + ((l.filter alone).length - 1) = l.length := by
  have hsub : ∀ C ∈ [l.filter alone], C ⊆ l := by simp
  have hcount := length_add_sum_of_classes (φ := place) hl (l.map place).nodup_dedup (fun p => by simp)
    (by simpa using hl.filter _) hsub (List.pairwise_singleton _ _)
    fun f hf k hk => by simp [h f hf k hk, hf, hk]
  simpa using hcount

/-- What the step of a parallel gateway does whose flows have places of their own on the one side, and
share at most one on the other. -/
theorem Does.conserves (hc : c.net.Consistent) (ho : Orderly c) (hd : Does c place s e)
    (hname : s.name = stepName (g.node n).id (g.node n).process) (hgate : ∀ p, ¬ IsGate c p)
    (hin : ∀ f, f ∈ s.takes ↔ f ∈ (g.node n).incoming) (hout : ∀ f, f ∈ s.gives ↔ f ∈ (g.node n).outgoing)
    (hnodup : (g.node n).incoming.Nodup) (hnodup' : (g.node n).outgoing.Nodup)
    (happart : ∀ f ∈ (g.node n).incoming, ∀ k ∈ (g.node n).incoming, place f = place k → f = k)
    (hshared : ∀ f ∈ (g.node n).outgoing, ∀ k ∈ (g.node n).outgoing,
      (place f = place k ↔ f = k ∨ g.EndsAlone f ∧ g.EndsAlone k)) :
    Conserves g place c.net n e.1 := by
  have htakes : ∀ p, Arc.input p e.1 ∈ c.net.arcs ↔ p ∈ (g.node n).incoming.map place := fun p => by
    rw [hd.takes p (hgate p), List.mem_map]
    simp only [hin]
  have hgives : ∀ p, Arc.output e.1 p ∈ c.net.arcs ↔ p ∈ ((g.node n).outgoing.map place).dedup := fun p => by
    rw [hd.gives p (hgate p), List.mem_dedup, List.mem_map]
    simp only [hout]
  have hplaces : ((g.node n).incoming.map place).Nodup :=
    hnodup.map_on fun f hf k hk he => happart f hf k hk he
  have hdedup := ((g.node n).outgoing.map place).nodup_dedup
  have houtputs := c.net.perm_arcsAt hc hdedup hgives
  have hinputs := c.net.perm_arcsAt hc hplaces htakes
  rw [List.map_map] at hinputs
  have hbears : c.Bears e.1 (stepName (g.node n).id (g.node n).process) :=
    ⟨e.2, hd.live, hd.name.trans hname⟩
  refine ⟨fun u => hbears.bears_singleton_iff hc, hinputs, houtputs, hshared, ?_, fun m => ?_,
    fun m m' hfire q => ?_, fun f hf => ho.apart _ _ ((htakes _).2 (List.mem_map_of_mem hf))⟩
  · rw [houtputs.length_eq, List.length_map, length_dedup_map hnodup' hshared]
  · rw [isEnabled_iff hc.mirrored]
    constructor
    · exact fun he f hf => he.marked _ ((htakes _).2 (List.mem_map_of_mem hf))
    · refine fun hmarked => ⟨hasTransition_iff.2 ⟨_, hd.live⟩, fun p hp => ?_,
        fun p hp => absurd hp (ho.uninhibited p e.1)⟩
      obtain ⟨f, hf, rfl⟩ := List.mem_map.1 ((htakes p).1 hp)
      exact hmarked f hf
  · rw [(fire_eq_ok hc.mirrored hfire).2, after, List.Nodup.count hplaces, List.Nodup.count hdedup]
    simp only [htakes, hgives]
    congr 2
    split <;> rfl

end Construction

namespace ProcessDeclaration

open Construction Identifier Net ProcessGraph

variable {d : ProcessDeclaration} {g : ProcessGraph}

/-- In the net that `toAcceptingNet` makes of a graph that was built and that has no events on
subprocesses, the transition of a parallel gateway takes a token for each flow into the gateway and puts
one for each flow out of it, where all flows that lead straight to ends of the root process count as one.
-/
theorem conserves_of_toAcceptingNet {showEvents : Bool} {a : AcceptingNet} (hbuild : d.build = .ok g)
    (h : g.toAcceptingNet showEvents = .ok a) (hundisturbed : g.Undisturbed) :
    ∃ normal place, g.normalize = .ok normal ∧ Inventory normal showEvents place a.net ∧
      ∀ n direction, (g.node n).kind = .gateway .parallel direction → ∃ t, Conserves g place a.net n t := by
  obtain ⟨hfirst, normal, c, hnormal, hc, rfl⟩ := toAcceptingNet_eq_ok h
  obtain ⟨_, hd⟩ := declares_of_build hbuild
  obtain ⟨l, hfin⟩ := finished_of_build hbuild hnormal hc
  have hrefines := refines_normalize hnormal
  have hform := normal_normalize hd.linked hd.distinct hnormal
  obtain ⟨place, hl, hinventory⟩ := inventory_of_construct hform
    ((sound_of_build hbuild).normalize hnormal)
    (hrefines.supported (supported_of_firstUnsupported? hfirst)) hfin hc
  refine ⟨normal, place, hnormal, hinventory, fun n direction hkind => ?_⟩
  have hundisturbed' := hrefines.undisturbed hundisturbed
  have hn : index n < g.nodes.size := lt_of_kind fun he => by rw [hkind] at he; cases he
  obtain ⟨hid, hprocess, hkind'⟩ := hrefines.id_eq hn
  obtain ⟨hin, hout⟩ := (attached_normalize hd.linked hd.distinct hnormal).gateway n hn (by rw [hkind]; rfl)
  -- without events on subprocesses there are no gates, and no ends are merged
  have hgate : ∀ p, ¬ IsGate c p := by
    obtain ⟨ps, -, hlen, hps⟩ := hl.lodged.gates
    rw [hundisturbed'.messageCount, List.length_eq_zero_iff] at hlen
    exact fun p hp => List.not_mem_nil (hlen ▸ (hps p).2 hp)
  have hshared : ∀ f k, index f < normal.flows.size → index k < normal.flows.size →
      (place f = place k ↔ f = k ∨
        entersRootEnd normal (normal.flow f) ∧ entersRootEnd normal (normal.flow k)) := by
    intro f k hf hk
    rw [hinventory.shared f k hf hk, Together, hundisturbed'.raisingGroups]
    simp
  -- `normalize` leaves the gateway its flows, so its step is still the one of all its branches
  have hstep : normal.passStep n none ∈ normal.steps showEvents := by
    have hnode : normal.nodeSteps n = [normal.passStep n none] := by
      rw [nodeSteps, hkind', hkind]
    have hmem : normal.passStep n none ∈ normal.sortedNodes.flatMap normal.nodeSteps :=
      List.mem_flatMap.2 ⟨n, mem_sortedNodes.2 (Nat.lt_of_lt_of_le hn hrefines.size), by
        rw [hnode]; exact List.mem_singleton_self _⟩
    simp only [steps, List.mem_append]
    exact .inl (.inl (.inl (.inl hmem)))
  obtain ⟨e, -, hdoes⟩ := exists_of_forall₂ hl.listed hstep
  refine ⟨e.1, hdoes.conserves hl.consistent hfin.orderly (by rw [passStep, hid, hprocess]) hgate
    (fun f => hin.mem_iff) (fun f => hout.mem_iff) (hd.linked.nodup_incoming n)
    (hd.linked.nodup_outgoing n) (fun f hf k hk he => ?_) fun f hf k hk => ?_⟩
  · obtain ⟨hf, htarget⟩ := (hform.linked.mem_incoming n f).1 (hin.mem_iff.2 hf)
    obtain ⟨hk, -⟩ := (hform.linked.mem_incoming n k).1 (hin.mem_iff.2 hk)
    refine ((hshared f k hf hk).1 he).resolve_right fun hends => ?_
    have hend := (kind_of_entersRootEnd hends.1).1
    rw [htarget, hkind', hkind] at hend
    cases hend
  · obtain ⟨hf', -⟩ := (hform.linked.mem_outgoing n f).1 (hout.mem_iff.2 hf)
    obtain ⟨hk', -⟩ := (hform.linked.mem_outgoing n k).1 (hout.mem_iff.2 hk)
    have hleaves : ∀ f ∈ (g.node n).outgoing, LeavesGateway g f := by
      intro f hf
      obtain ⟨hlt, hsource⟩ := (hd.linked.mem_outgoing n f).1 hf
      exact ⟨hlt, by rw [hsource, hkind]; rfl⟩
    rw [hshared f k hf' hk', entersRootEnd_normalize_iff hd.linked hd.distinct (hleaves f hf) hnormal,
      entersRootEnd_normalize_iff hd.linked hd.distinct (hleaves k hk) hnormal]

/-- A fork with two branches that lead straight to ends, and with a task on the third. -/
def fork : ProcessDeclaration where
  processId := "p"
  name := "p"
  nodes := [⟨"a", none, .startEvent .normal, "p"⟩, ⟨"done", none, .endEvent .normal, "p"⟩,
    ⟨"e1", none, .endEvent .normal, "p"⟩, ⟨"e2", none, .endEvent .normal, "p"⟩,
    ⟨"fork", none, .gateway .parallel .diverging, "p"⟩, ⟨"t", some "T", .task, "p"⟩]
  flows := [⟨"f1", none, .sequence, "a", "fork", none⟩, ⟨"f2", none, .sequence, "fork", "e1", none⟩,
    ⟨"f3", none, .sequence, "fork", "e2", none⟩, ⟨"f4", none, .sequence, "fork", "t", none⟩,
    ⟨"f5", none, .sequence, "t", "done", none⟩]

theorem converts_fork : fork.converts fun g _ c =>
    g.nodes.items.all (fun x => !x.kind.isSubprocess) &&
      decide ((g.node ⟨4⟩).kind = .gateway .parallel .diverging) &&
      decide ((g.node ⟨4⟩).outgoing.length = 3) &&
      decide ((c.net.transition? ⟨0⟩).map (·.name) =
        some (stepName (g.node ⟨4⟩).id (g.node ⟨4⟩).process)) &&
      decide ((c.net.arcsAt ⟨0⟩ .output).length = 2) := by
  delta converts build Construction.construct addFlowPlaces addNodes addNode addGateway
    joinSubprocesses joinSubprocess normalEndPlaces addTaskBoundaries addSubprocessBoundaries
    addSubprocessBoundary mergeRaisingEnds raisingEnds terminateSubprocess terminateRoot startsOf
    endsOf boundaryEventsOf terminationsOf ProcessGraph.normalize firstUnsupported?
  simp only [sortedPlaces_eq_insertionSort, sortedNodes_eq_insertionSort,
    sortedFlows_eq_insertionSort, select_eq_insertionSort,
    subprocessesInnermostFirst_eq_insertionSort]
  decide +kernel

theorem undisturbed_of_all (h : g.nodes.items.all fun x => !x.kind.isSubprocess) : g.Undisturbed := by
  intro n hkind
  have hn := lt_of_isSubprocess hkind
  have hnode := List.all_eq_true.1 h _ (List.getElem_mem hn)
  rw [← node_mk hn] at hnode
  rw [show (g.node ⟨index n⟩).kind.isSubprocess = true from hkind] at hnode
  cases hnode

/-- The fork has three flows behind it, and its transition has two output arcs. -/
theorem fork_has_two_outputs : ∃ g a n t, fork.build = .ok g ∧ g.toAcceptingNet true = .ok a ∧
    g.Undisturbed ∧ (g.node n).kind = .gateway .parallel .diverging ∧ (g.node n).outgoing.length = 3 ∧
    (∀ u, a.net.bears [stepName (g.node n).id (g.node n).process] u ↔ u = t) ∧
    (a.net.arcsAt t .output).length = 2 := by
  obtain ⟨g, _, c, hbuild, -, hc, ha, hcheck⟩ := exists_of_converts converts_fork
  simp only [Bool.and_eq_true, decide_eq_true_eq] at hcheck
  obtain ⟨⟨⟨⟨hall, hkind⟩, hthree⟩, hname⟩, htwo⟩ := hcheck
  obtain ⟨x, hx, hname⟩ := Option.map_eq_some_iff.1 hname
  have hbears : c.Bears ⟨0⟩ (stepName (g.node ⟨4⟩).id (g.node ⟨4⟩).process) := ⟨x, hx, hname⟩
  exact ⟨g, _, ⟨4⟩, ⟨0⟩, hbuild, ha, undisturbed_of_all hall, hkind, hthree,
    fun u => hbears.bears_singleton_iff (valid_of_construct hc).consistent, htwo⟩

/-- One of its two outputs is for two branches. -/
theorem conserves_fork : ∃ g a normal place n t, fork.build = .ok g ∧ g.toAcceptingNet true = .ok a ∧
    g.Undisturbed ∧ g.normalize = .ok normal ∧ Inventory normal true place a.net ∧
    (g.node n).kind = .gateway .parallel .diverging ∧ Conserves g place a.net n t := by
  obtain ⟨g, _, c, hbuild, -, -, ha, hcheck⟩ := exists_of_converts converts_fork
  simp only [Bool.and_eq_true, decide_eq_true_eq] at hcheck
  obtain ⟨⟨⟨⟨hall, hkind⟩, _⟩, _⟩, _⟩ := hcheck
  have hundisturbed := undisturbed_of_all hall
  obtain ⟨normal, place, hnormal, hinventory, hgateways⟩ :=
    conserves_of_toAcceptingNet hbuild ha hundisturbed
  obtain ⟨t, ht⟩ := hgateways ⟨4⟩ _ hkind
  exact ⟨g, _, normal, place, ⟨4⟩, t, hbuild, ha, hundisturbed, hnormal, hinventory, hkind, ht⟩

end ProcessDeclaration

end ProcessNet
