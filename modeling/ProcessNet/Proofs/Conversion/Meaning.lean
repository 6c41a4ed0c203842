/-
Conversion keeps the meaning of processes. Where tokens come into the ends of the root process one by one,
nothing is terminated and no event is on a subprocess, the net that a graph is converted into shows what the
token game of the graph shows, from its start until it is finished.
-/
import ProcessNet.Proofs.Conversion.Enactment
import ProcessNet.Proofs.Conversion.Evaluation
import ProcessNet.Proofs.Process.Detour
import ProcessNet.Proofs.Process.Sound

namespace ProcessNet

open Identifier Net

namespace Net

variable {m m' : Multiset PlaceId}

theorem tokensOf_inj : tokensOf m = tokensOf m' ↔ m = m' :=
  ⟨fun h => Multiset.ext.2 fun p => congrFun h p, fun h => congrArg tokensOf h⟩

end Net

namespace ProcessGraph

variable {g g' : ProcessGraph} {f : FlowId} {n : NodeId}

/-- Where no start event leads into an end of the root process, all flows into one share their place. -/
theorem EndsApart.entersEnd_iff (hg : g.Linked) (h : g.EndsApart) :
    g.EntersEnd f ↔ index f < g.flows.size ∧ Construction.entersRootEnd g (g.flow f) := by
  constructor
  · rintro ⟨n, hkind, hprocess, hf⟩
    obtain ⟨hlt, rfl⟩ := (hg.mem_incoming n f).1 hf
    refine ⟨hlt, ?_⟩
    have hstart : (g.node (g.flow f).source).kind.isStart = false := by
      refine Bool.eq_false_iff.2 fun hstart => ?_
      exact h.starts _ hstart f ((hg.mem_outgoing _ f).2 ⟨hlt, rfl⟩) ⟨_, hkind, hprocess, hf⟩
    simp [Construction.entersRootEnd, hstart, hkind, isRoot, hprocess]
  · rintro ⟨hlt, henters⟩
    exact Construction.entersEnd_of_entersRootEnd hg hlt henters

/-- Start events with one outgoing flow each leave no choice where the game starts. -/
theorem eq_of_behind_starts {nodes : List NodeId} {s : Multiset FlowId}
    (hslim : ∀ n, (g.node n).kind.isStart → (g.node n).outgoing.length ≤ 1)
    (h : g.Behind (nodes.filter fun n =>
      decide ((g.node n).process = g.processId) && (g.node n).kind.isStart) s) :
    s = (nodes.map (Construction.nodeStart g)).sum := by
  induction nodes generalizing s with
  | nil => exact Multiset.rel_zero_left.1 h
  | cons n nodes ih =>
    rw [List.map_cons, List.sum_cons]
    rcases hkeep : decide ((g.node n).process = g.processId) && (g.node n).kind.isStart with _ | _
    · rw [List.filter_cons, if_neg (by rw [hkeep]; exact Bool.false_ne_true)] at h
      rw [Construction.nodeStart, if_neg (fun hstart => ?_), Multiset.zero_add]
      · exact ih h
      · rw [hstart.1, decide_eq_true hstart.2] at hkeep
        cases hkeep
    · rw [List.filter_cons, if_pos hkeep, Behind, ← Multiset.cons_coe] at h
      obtain ⟨hroot, hstart⟩ := Bool.and_eq_true_iff.1 hkeep
      obtain ⟨f, s, hf, hs, rfl⟩ := Multiset.rel_cons_left.1 h
      obtain ⟨k, hk⟩ := List.length_eq_one_iff.1
        (Nat.le_antisymm (hslim n hstart) (List.length_pos_of_mem hf))
      rw [hk, List.mem_singleton] at hf
      rw [Construction.nodeStart, if_pos ⟨hstart, of_decide_eq_true hroot⟩, hk, hf, ← ih hs]
      rfl

end ProcessGraph

namespace Construction

open ProcessGraph

variable {g : ProcessGraph} {c c' : Construction} {showEvents : Bool} {n : NodeId}

/-- `addNodes` only succeeds if each start has a flow behind it and each end one in front of it. -/
theorem exists_flow_of_addNodes (h : addNodes g c = .ok () c') (hn : index n < g.nodes.size) :
    ((g.node n).kind.isStart → ∃ f, f ∈ (g.node n).outgoing) ∧
      ((g.node n).kind.isEnd → ∃ f, f ∈ (g.node n).incoming) := by
  obtain ⟨c₁, c₂, -, hrun, -⟩ := exists_of_mem_forM (R := fun _ _ => True) (fun _ => trivial)
    (fun _ _ _ _ _ => trivial) (fun _ _ _ _ _ => trivial) h (mem_sortedNodes.2 hn)
  unfold addNode at hrun
  refine ⟨fun hstart => ?_, fun hend => ?_⟩
  · cases hkind : (g.node n).kind with
    | startEvent trigger =>
      simp only [hkind] at hrun
      obtain ⟨p, _, hp, -⟩ := bind_eq_ok.1 hrun
      obtain ⟨f, hf, -⟩ := outPlace_eq_ok.1 hp
      exact ⟨f, List.mem_of_mem_head? hf⟩
    | _ => rw [hkind] at hstart; cases hstart
  · cases hkind : (g.node n).kind with
    | endEvent trigger =>
      simp only [hkind] at hrun
      obtain ⟨p, _, hp, -⟩ := bind_eq_ok.1 hrun
      obtain ⟨f, hf, -⟩ := inPlace_eq_ok.1 hp
      exact ⟨f, List.mem_of_mem_head? hf⟩
    | _ => rw [hkind] at hend; cases hend

/-- The net starts as the game does. -/
theorem Charted.start {places : List (FlowId × PlaceId)} {moves : MoveSet} {finish : FlowId → Prop}
    (hg : g.Normal) (hc : Charted places moves (g.sortedNodes.map (nodeStart g)).sum finish c)
    {s : Multiset FlowId} (hs : (g.game showEvents).start s) :
    ∃ m, Multiset.Rel (Placed places) s m ∧ tokensOf m = c.initial.tokens := by
  obtain ⟨m, hm, htokens⟩ := hc.initial
  refine ⟨m, ?_, htokens.symm⟩
  rwa [eq_of_behind_starts (fun n hstart =>
    (inGatewayForm_iff.1 hg.form n (NodeKind.isGateway_of_isStart hstart)).2) hs]

/-- The final marking is one token on the place that the flows into the ends of the root process share. -/
theorem Charted.finish {moves : MoveSet} {start₀ : Multiset FlowId} {ground : Construction} {f : FlowId}
    (hg : g.Linked) (hends : g.EndsApart) (hground : Ground g ground)
    (hflows : addFlowPlaces g (Construction.start g) = .ok () ground)
    (hc : Charted ground.flowPlaces moves start₀ g.EntersEnd c) (hf : g.EntersEnd f)
    {s : Multiset FlowId} {m : Multiset PlaceId} (hm : Multiset.Rel (Placed ground.flowPlaces) s m) :
    tokensOf m = c.final.tokens ↔ (g.game showEvents).finish s := by
  obtain ⟨p, hp⟩ := exists_place_of_addFlowPlaces hflows ((hends.entersEnd_iff hg).1 hf).1
  have hsink : ∀ {k q}, g.EntersEnd k → Placed ground.flowPlaces k q → q = p := by
    intro k q hk hq
    have hsunk := rootSink_of_addFlowPlaces hflows hq ((hends.entersEnd_iff hg).1 hk).2
    have hsunk' := rootSink_of_addFlowPlaces hflows hp ((hends.entersEnd_iff hg).1 hf).2
    exact Option.some.inj (hsunk.symm.trans hsunk')
  have hfinal : c.final.tokens = tokensOf {p} := by
    funext q
    obtain ⟨hle, hiff⟩ := hc.final q
    rw [tokensOf, Multiset.count_singleton]
    split
    · rename_i he
      have := hiff.2 ⟨f, hf, he ▸ hp⟩
      omega
    · rename_i hne
      refine Nat.eq_zero_of_not_pos fun hpos => ?_
      obtain ⟨k, hk, hq⟩ := hiff.1 hpos
      exact hne (hsink hk hq)
  rw [hfinal, tokensOf_inj]
  constructor
  · rintro rfl
    obtain ⟨k, hk, rfl⟩ := rel_singleton_right.1 hm
    refine ⟨k, ?_, rfl⟩
    rcases hground.shared k f p hk hp with rfl | ⟨henters, -⟩
    · exact hf
    · exact (hends.entersEnd_iff hg).2 ⟨hground.bound k p hk, henters⟩
  · rintro ⟨k, hk, rfl⟩
    obtain ⟨q, hq, rfl⟩ := rel_singleton_left.1 hm
    rw [hsink hk hq]

/-- What `construct` leaves accepts what the game of its graph accepts. -/
theorem accepts_of_construct (hg : Enactable g)
    (hend : ∃ n, (g.node n).kind = .endEvent .normal ∧ (g.node n).process = g.processId)
    (h : construct g showEvents (start g) = .ok () c) {w : List String} :
    c.net.Accepts c.initial.tokens c.final.tokens w ↔ (g.game showEvents).Accepts w := by
  obtain ⟨ground, hground, hflows, hc⟩ := charted_of_construct hg h
  obtain ⟨_, c₁, _, _, _, _, _, hnodes, -⟩ := construct_eq_ok h
  have hfinish : (fun f => ∃ n ∈ g.sortedNodes, nodeFinish g n f) = g.EntersEnd :=
    funext fun f => propext exists_nodeFinish_iff
  rw [hfinish] at hc
  obtain ⟨e, hkind, hprocess⟩ := hend
  have he : index e < g.nodes.size := lt_of_kind fun hk => by rw [hk] at hkind; cases hkind
  obtain ⟨f, hf⟩ := (exists_flow_of_addNodes hnodes he).2 (by rw [hkind]; rfl)
  refine (hc.enacts hg hground.shared).accepts_iff ?_ (fun s => hc.start hg.normal)
    fun s m => hc.finish hg.normal.linked hg.ends hground hflows ⟨e, hkind, hprocess, hf⟩
  refine exists_behind fun n hn => ?_
  obtain ⟨hlt, -, hstart⟩ := mem_startsOf.1 hn
  exact (exists_flow_of_addNodes hnodes hlt).1 hstart

end Construction

namespace ProcessDeclaration

open Construction ProcessGraph

variable {d : ProcessDeclaration} {g normal : ProcessGraph} {showEvents : Bool}

/-- `normalize` adds nothing that the game does not allow for. -/
theorem enactable_of_build (h : d.build = .ok g) (hfirst : g.firstUnsupported? = none)
    (hterminate : ∀ n, (g.node n).kind ≠ .endEvent .terminate)
    (hevents : ∀ n, (g.node n).kind.isSubprocess → g.boundaryEventsOf (g.node n).id = [])
    (hnormal : g.normalize = .ok normal) (hends : normal.EndsApart) : Enactable normal := by
  have hsound := sound_of_build h
  have hrefines := refines_normalize hnormal
  -- what `normalize` adds is exclusive gateways, and none of the conditions is about these
  have hkind : ∀ n, (normal.node n).kind = (g.node n).kind ∨
      ∃ direction, (normal.node n).kind = .gateway .exclusive direction := by
    intro n
    rcases Nat.lt_or_ge (index n) g.nodes.size with hlt | hge
    · exact .inl (hrefines.id_eq hlt).2.2
    rcases Nat.lt_or_ge (index n) normal.nodes.size with hlt | hge'
    · exact .inr (hrefines.gateway n hge hlt)
    · rw [node_eq_default hge, node_eq_default hge']
      exact .inl rfl
  refine ⟨normal_normalize hsound.tidy.linked hsound.distinct hnormal, fun n hn => ?_,
    fun n direction he => ?_, fun n he => ?_, fun n hn => ?_, hends⟩
  · have hlt := lt_of_isSubprocess ((hrefines.isSubprocess_iff n).1 hn)
    rw [(hrefines.id_eq hlt).1, hrefines.processId]
    exact (hsound.node n hlt).root
  · rcases hkind n with hsame | ⟨_, hgateway⟩
    · have hlt : index n < g.nodes.size := lt_of_kind fun hk => by
        rw [← hsame, he] at hk
        cases hk
      have hnone := List.find?_eq_none.1 hfirst n (mem_sortedNodes.2 hlt)
      rw [← hsame, he] at hnone
      exact hnone rfl
    · cases he.symm.trans hgateway
  · rcases hkind n with hsame | ⟨_, hgateway⟩
    · exact hterminate n (hsame.symm.trans he)
    · cases he.symm.trans hgateway
  · have hsub := (hrefines.isSubprocess_iff n).1 hn
    rw [(hrefines.id_eq (lt_of_isSubprocess hsub)).1, List.eq_nil_iff_forall_not_mem]
    intro m hm
    obtain ⟨-, trigger, he⟩ := mem_boundaryEventsOf.1 hm
    rcases hkind m with hsame | ⟨_, hgateway⟩
    · have hm : m ∈ g.boundaryEventsOf (g.node n).id := mem_boundaryEventsOf.2
        ⟨lt_of_kind fun hk => (by rw [← hsame, he] at hk; cases hk), trigger, hsame.symm.trans he⟩
      rw [hevents n hsub] at hm
      cases hm
    · cases he.symm.trans hgateway

/-- The net that `toAcceptingNet` makes of a graph accepts the label sequences that the token game of the
graph shows. -/
theorem toAcceptingNet_keeps_meaning {a : AcceptingNet} (hbuild : d.build = .ok g)
    (ha : g.toAcceptingNet showEvents = .ok a)
    (hend : ∃ n, (g.node n).kind = .endEvent .normal ∧ (g.node n).process = g.processId)
    (hterminate : ∀ n, (g.node n).kind ≠ .endEvent .terminate)
    (hevents : ∀ n, (g.node n).kind.isSubprocess → g.boundaryEventsOf (g.node n).id = [])
    (hends : ∀ normal, g.normalize = .ok normal → normal.EndsApart) (w : List String) :
    a.Accepts w ↔ (g.game showEvents).Accepts w := by
  obtain ⟨hfirst, normal, c, hnormal, hc, rfl⟩ := toAcceptingNet_eq_ok ha
  have henactable := enactable_of_build hbuild hfirst hterminate hevents hnormal (hends normal hnormal)
  have hrefines := refines_normalize hnormal
  obtain ⟨e, hkind, hprocess⟩ := hend
  have he : index e < g.nodes.size := lt_of_kind fun hk => by rw [hk] at hkind; cases hkind
  obtain ⟨-, hprocess', hkind'⟩ := hrefines.id_eq he
  have hend' : ∃ n, (normal.node n).kind = .endEvent .normal ∧
      (normal.node n).process = normal.processId :=
    ⟨e, hkind'.trans hkind, hprocess'.trans (hprocess.trans hrefines.processId.symm)⟩
  exact (accepts_of_construct henactable hend' hc).trans
    (accepts_normalize (sound_of_build hbuild).tidy.linked hnormal w)

/-- A task in a subprocess that is tried again when it is late. -/
def retrying : ProcessDeclaration where
  processId := "p"
  name := "p"
  nodes := [⟨"a", none, .startEvent .normal, "p"⟩, ⟨"b", none, .endEvent .normal, "p"⟩,
    ⟨"late", some "Late", .boundaryEvent .error "t", "sp"⟩, ⟨"sp", none, .subprocess 0, "p"⟩,
    ⟨"sp-a", none, .startEvent .normal, "sp"⟩, ⟨"sp-b", none, .endEvent .normal, "sp"⟩,
    ⟨"t", some "Try", .task, "sp"⟩]
  flows := [⟨"f1", none, .sequence, "a", "sp", none⟩, ⟨"f2", none, .sequence, "sp", "b", none⟩,
    ⟨"h1", none, .sequence, "sp-a", "t", none⟩, ⟨"h2", none, .sequence, "late", "t", none⟩,
    ⟨"h3", none, .sequence, "t", "sp-b", none⟩]

/-- The transitions that fire when the task is late once. -/
def lateOnce : List String :=
  ["t-start-subprocess@@@sp@@@p", "t@@@XOR-input-t#0@@@sp", "t-boundary@@@late@@@sp",
    "t@@@XOR-input-t#1@@@sp", "t@@@t@@@sp", "t-end-subprocess@@@sp@@@p"]

/-- What is evaluated on the net of this process. -/
theorem converts_retrying : retrying.converts fun g normal c =>
    decide ((g.node ⟨1⟩).kind = .endEvent .normal) && decide ((g.node ⟨1⟩).process = g.processId) &&
      decide (∀ x ∈ g.nodes.items, x.kind ≠ .endEvent .terminate) &&
      decide (∀ x ∈ g.nodes.items, x.kind.isSubprocess → g.boundaryEventsOf x.id = []) &&
      decide normal.EndsApart &&
      (c.net.play lateOnce c.initial).any fun r =>
        decide (r.2 = c.final) && decide (c.net.trace r.1 = ["Late", "Try"]) := by
  delta converts build Construction.construct addFlowPlaces addNodes addNode addGateway
    joinSubprocesses joinSubprocess normalEndPlaces addTaskBoundaries addSubprocessBoundaries
    addSubprocessBoundary mergeRaisingEnds raisingEnds terminateSubprocess terminateRoot startsOf
    endsOf boundaryEventsOf terminationsOf ProcessGraph.normalize firstUnsupported?
  simp only [sortedPlaces_eq_insertionSort, sortedNodes_eq_insertionSort,
    sortedFlows_eq_insertionSort, select_eq_insertionSort,
    subprocessesInnermostFirst_eq_insertionSort]
  decide +kernel

/-- Being late once is shown by the net, and so by the game. -/
theorem retrying_keeps_meaning : ∃ g a, retrying.build = .ok g ∧ g.toAcceptingNet true = .ok a ∧
    (∀ w, a.Accepts w ↔ (g.game true).Accepts w) ∧ (g.game true).Accepts ["Late", "Try"] := by
  obtain ⟨g, normal, c, hbuild, hnormal, hc, ha, hcheck⟩ := exists_of_converts converts_retrying
  simp only [Bool.and_eq_true, decide_eq_true_eq] at hcheck
  obtain ⟨⟨⟨⟨⟨hkind, hprocess⟩, hterminate⟩, hevents⟩, hends⟩, hplay⟩ := hcheck
  have hmeaning := toAcceptingNet_keeps_meaning hbuild ha ⟨⟨1⟩, hkind, hprocess⟩
    ((forall_node_iff nofun).2 hterminate) ((forall_node_iff nofun).2 hevents) <| by
      intro normal' hnormal'
      obtain rfl := Except.ok.inj (hnormal.symm.trans hnormal')
      exact hends
  obtain ⟨ts, m, hplays, h⟩ := exists_of_play (valid_of_construct hc).consistent hplay
  simp only [Bool.and_eq_true, decide_eq_true_eq] at h
  obtain ⟨rfl, htrace⟩ := h
  exact ⟨g, _, hbuild, ha, hmeaning, (hmeaning _).1 ⟨ts, hplays.2, htrace⟩⟩

end ProcessDeclaration

end ProcessNet
