/-
Graphs that can be told from their declarations. A graph that was built is one, and it stays one in
gateway form: building the declarations that describe it gives the same graph again. The other way round,
a graph is described by the declarations it was built from, with each subprocess at its depth.
-/
import ProcessNet.Process.Document
import ProcessNet.Proofs.Process.Region
import ProcessNet.Proofs.Process.Tidy

namespace ProcessNet

open Identifier ProcessGraph

/-- How a node would be declared. -/
def Node.declared (x : Node) : NodeDeclaration where
  id := x.id
  name := x.name
  kind := x.kind
  process := x.process

theorem Node.declared_bare (x : Node) : x.bare.declared = x.declared := rfl

namespace ProcessDeclaration

variable {d d' : ProcessDeclaration} {g g' : ProcessGraph} {id : String} {depth : Nat}

/-! ## More nodes -/

/-- All nodes of `d` are found in `d'`, up to the depths that they show. -/
structure Covers (d d' : ProcessDeclaration) : Prop where
  processId : d'.processId = d.processId
  node : ∀ n ∈ d.nodes, ∃ m ∈ d'.nodes, m.id = n.id ∧ m.process = n.process ∧
    m.kind.isSubprocess = n.kind.isSubprocess ∧ m.kind.isActivity = n.kind.isActivity

theorem Covers.isProcess (h : Covers d d') (hid : d.isProcess id) : d'.isProcess id := by
  rw [isProcess_iff] at hid ⊢
  rcases hid with hid | ⟨n, hn, hid, hkind⟩
  · exact .inl (hid.trans h.processId.symm)
  · obtain ⟨m, hm, hmid, -, hmkind, -⟩ := h.node n hn
    exact .inr ⟨m, hm, hmid.trans hid, hmkind.trans hkind⟩

theorem Covers.nested (h : Covers d d') (hid : d.Nested id depth) : d'.Nested id depth := by
  induction hid with
  | root => exact h.processId ▸ .root
  | inside hn hkind _ ih =>
    obtain ⟨m, hm, hmid, hmprocess, hmkind, -⟩ := h.node _ hn
    exact hmid ▸ .inside hm (hmkind.trans hkind) (hmprocess ▸ ih)

/-- The node has its place among the declared ones, at the depth that it shows. -/
structure Admits (d : ProcessDeclaration) (n : NodeDeclaration) : Prop where
  root : n.id ≠ d.processId
  apart : n.process ≠ n.id
  process : d.isProcess n.process
  boundary : ∀ trigger activity, n.kind = .boundaryEvent trigger activity →
    ∃ m ∈ d.nodes, m.id = activity ∧ m.kind.isActivity
  nested : ∀ depth, n.kind = .subprocess depth → d.Nested n.id depth

theorem Covers.admits (h : Covers d d') {n : NodeDeclaration} (hn : d.Admits n) : d'.Admits n where
  root := h.processId ▸ hn.root
  apart := hn.apart
  process := h.isProcess hn.process
  boundary trigger activity hkind := by
    obtain ⟨m, hm, hid, hactivity⟩ := hn.boundary trigger activity hkind
    obtain ⟨m', hm', hid', -, -, hactivity'⟩ := h.node m hm
    exact ⟨m', hm', hid'.trans hid, hactivity'.trans hactivity⟩
  nested depth hkind := h.nested (hn.nested depth hkind)

/-! ## The declarations that describe a graph -/

theorem nodes_ofGraph : (ofGraph g).nodes = g.nodes.items.map Node.declared := rfl

theorem flows_ofGraph : (ofGraph g).flows = g.flows.items.map g.described := rfl

theorem getElem?_nodes_ofGraph {i : Nat} {x : NodeDeclaration} :
    (ofGraph g).nodes[i]? = some x ↔ i < g.nodes.size ∧ (g.node ⟨i⟩).declared = x := by
  rw [nodes_ofGraph, List.getElem?_map, Option.map_eq_some_iff]
  constructor
  · rintro ⟨n, hn, rfl⟩
    obtain ⟨hlt, rfl⟩ := List.getElem?_eq_some_iff.1 hn
    exact ⟨hlt, congrArg Node.declared (node_mk hlt)⟩
  · rintro ⟨hlt, rfl⟩
    exact ⟨_, List.getElem?_eq_getElem hlt, congrArg Node.declared (node_mk hlt).symm⟩

theorem getElem?_flows_ofGraph {i : Nat} {x : FlowDeclaration} :
    (ofGraph g).flows[i]? = some x ↔ i < g.flows.size ∧ g.described (g.flow ⟨i⟩) = x := by
  rw [flows_ofGraph, List.getElem?_map, Option.map_eq_some_iff]
  constructor
  · rintro ⟨f, hf, rfl⟩
    obtain ⟨hlt, rfl⟩ := List.getElem?_eq_some_iff.1 hf
    exact ⟨hlt, congrArg g.described (flow_mk hlt)⟩
  · rintro ⟨hlt, rfl⟩
    exact ⟨_, List.getElem?_eq_getElem hlt, congrArg g.described (flow_mk hlt).symm⟩

theorem mem_nodes_ofGraph {x : NodeDeclaration} :
    x ∈ (ofGraph g).nodes ↔ ∃ n, index n < g.nodes.size ∧ (g.node n).declared = x := by
  simp only [List.mem_iff_getElem?, getElem?_nodes_ofGraph]
  exact ⟨fun ⟨i, hi⟩ => ⟨⟨i⟩, hi⟩, fun ⟨n, hn⟩ => ⟨index n, hn⟩⟩

theorem mem_flows_ofGraph {x : FlowDeclaration} :
    x ∈ (ofGraph g).flows ↔ ∃ f, index f < g.flows.size ∧ g.described (g.flow f) = x := by
  simp only [List.mem_iff_getElem?, getElem?_flows_ofGraph]
  exact ⟨fun ⟨i, hi⟩ => ⟨⟨i⟩, hi⟩, fun ⟨f, hf⟩ => ⟨index f, hf⟩⟩

end ProcessDeclaration

namespace ProcessGraph

open ProcessDeclaration

variable {g g' : ProcessGraph} {n : NodeId}

/-- Nodes and flows have their places in the graph, and flows are listed in order. -/
structure Sound (g : ProcessGraph) : Prop where
  tidy : g.Tidy
  distinct : g.Distinct
  node : ∀ n, index n < g.nodes.size → (ofGraph g).Admits (g.node n).declared
  flow : ∀ f, index f < g.flows.size → (ofGraph g).isProcess (g.flow f).process

theorem Sound.wellFormed (hg : g.Sound) : (ofGraph g).WellFormed := by
  have hnode : ∀ x ∈ (ofGraph g).nodes, (ofGraph g).Admits x := by
    intro x hx
    obtain ⟨n, hn, rfl⟩ := mem_nodes_ofGraph.1 hx
    exact hg.node n hn
  have hend : ∀ {n : NodeId}, index n < g.nodes.size → ∃ x ∈ (ofGraph g).nodes, x.id = (g.node n).id :=
    fun hn => ⟨_, mem_nodes_ofGraph.2 ⟨_, hn, rfl⟩, rfl⟩
  refine {
    ids := ?_
    root := fun x hx => (hnode x hx).root
    apart := fun x hx => (hnode x hx).apart
    process := fun x hx => (hnode x hx).process
    boundary := fun x hx => (hnode x hx).boundary
    nested := fun x hx hkind => ?_
    flowIds := ?_
    source := fun x hx => ?_
    target := fun x hx => ?_
    flowProcess := fun x hx process hprocess => ?_ }
  · refine nodup_of_getElem? fun i j x y hx hy hid => ?_
    obtain ⟨hi, rfl⟩ := getElem?_nodes_ofGraph.1 hx
    obtain ⟨hj, rfl⟩ := getElem?_nodes_ofGraph.1 hy
    exact congrArg NodeId.number (hg.distinct.node ⟨i⟩ ⟨j⟩ hi hj hid)
  · cases hk : x.kind with
    | subprocess depth => exact ⟨depth, (hnode x hx).nested depth hk⟩
    | _ => rw [hk] at hkind; cases hkind
  · refine nodup_of_getElem? fun i j x y hx hy hid => ?_
    obtain ⟨hi, rfl⟩ := getElem?_flows_ofGraph.1 hx
    obtain ⟨hj, rfl⟩ := getElem?_flows_ofGraph.1 hy
    exact congrArg FlowId.number (hg.distinct.flow ⟨i⟩ ⟨j⟩ hi hj hid)
  · obtain ⟨f, hf, rfl⟩ := mem_flows_ofGraph.1 hx
    exact hend (hg.tidy.linked.source f hf)
  · obtain ⟨f, hf, rfl⟩ := mem_flows_ofGraph.1 hx
    exact hend (hg.tidy.linked.target f hf)
  · obtain ⟨f, hf, rfl⟩ := mem_flows_ofGraph.1 hx
    cases hprocess
    exact hg.flow f hf

/-- `build` makes the graph of the declarations that describe it. -/
theorem Sound.build (hg : g.Sound) : (ofGraph g).build = .ok g := by
  have hw := hg.wellFormed
  obtain ⟨g', hbuild⟩ := hw.exists_build
  obtain ⟨-, hd⟩ := declares_of_build hbuild
  have hnodes : g'.nodes.size = g.nodes.size := hd.nodeCount.trans (List.length_map _)
  have hflows : g'.flows.size = g.flows.size := hd.flowCount.trans (List.length_map _)
  -- the declared depth does not count: the node is placed where it is nested, and that is the depth it shows
  have hbare : ∀ n, (g'.node n).bare = (g.node n).bare := by
    intro n
    rcases Nat.lt_or_ge (index n) g.nodes.size with hn | hn
    · have hplace : (ofGraph g).place (g.node n).declared = .ok (g'.node n).bare :=
        hd.node _ _ (getElem?_nodes_ofGraph.2 ⟨hn, rfl⟩)
      obtain ⟨depth, hdepth, hplaced⟩ := place_eq_ok_iff.1 hplace
      have hkind : (g.node n).declared.kind.atDepth depth = (g.node n).kind := by
        refine NodeKind.atDepth_eq fun k hk => ?_
        have hnested := nested_of_depthWithin? (hdepth (by rw [hk]; rfl))
        exact hnested.unique hw.ids hw.root ((hg.node n hn).nested k hk)
      rw [hplaced, hkind]
      rfl
    · rw [node_eq_default hn, node_eq_default (hnodes.symm ▸ hn)]
  -- ids are distinct, so the ends of a flow are told by the ids that are declared
  have hflow : ∀ f, g'.flow f = g.flow f := by
    intro f
    rcases Nat.lt_or_ge (index f) g.flows.size with hf | hf
    · have hdescribed : g'.described (g'.flow f) = g.described (g.flow f) :=
        hd.flow _ _ (getElem?_flows_ofGraph.2 ⟨hf, rfl⟩)
      have hf' : index f < g'.flows.size := hflows.symm ▸ hf
      have hid : ∀ n, (g'.node n).id = (g.node n).id := fun n => congrArg (·.id) (hbare n)
      have hsource := congrArg (·.source) hdescribed
      have htarget := congrArg (·.target) hdescribed
      simp only [described, hid] at hsource htarget
      have hsource := hg.distinct.node _ _ (hnodes ▸ hd.linked.source f hf')
        (hg.tidy.linked.source f hf) hsource
      have htarget := hg.distinct.node _ _ (hnodes ▸ hd.linked.target f hf')
        (hg.tidy.linked.target f hf) htarget
      have hwhole : ∀ x : Flow, x = ⟨x.id, x.name, x.kind, x.source, x.target, x.process⟩ := fun _ => rfl
      simp only [described, FlowDeclaration.mk.injEq] at hdescribed
      obtain ⟨hid, hname, hkind, -, -, hprocess⟩ := hdescribed
      rw [hwhole (g'.flow f), hid, hname, hkind, hsource, htarget, Option.some.inj hprocess]
    · rw [flow_eq_default hf, flow_eq_default (hflows.symm ▸ hf)]
  rwa [hg.tidy.eq (tidy_of_build hbuild) hd.processId hd.name hnodes hflows hbare hflow] at hbuild

theorem Sound.rooted (hg : g.Sound) : g.Rooted := by
  have hprocess : ∀ {process : String}, (ofGraph g).isProcess process → g.HasProcess process := by
    intro process h
    rcases isProcess_iff.1 h with h | ⟨x, hx, hid, hkind⟩
    · exact .inl h
    · obtain ⟨m, _, rfl⟩ := mem_nodes_ofGraph.1 hx
      exact .inr ⟨m, hkind, hid⟩
  exact ⟨fun n hn => hprocess (hg.node n hn).process, fun f hf => hprocess (hg.flow f hf),
    layered_of_build hg.build⟩

end ProcessGraph

/-! ## Graphs that were built -/

namespace ProcessDeclaration

variable {d : ProcessDeclaration} {g : ProcessGraph}

theorem covers_of_build (h : d.build = .ok g) : Covers d (ofGraph g) := by
  obtain ⟨-, hd⟩ := declares_of_build h
  refine ⟨hd.processId, fun x hx => ?_⟩
  obtain ⟨i, hi⟩ := List.mem_iff_getElem?.1 hx
  obtain ⟨depth, -, hplaced⟩ := place_eq_ok_iff.1 (hd.node i x hi)
  have hlt := hd.nodeCount.symm ▸ (List.getElem?_eq_some_iff.1 hi).1
  have hkind : (g.node ⟨i⟩).kind = x.kind.atDepth depth := congrArg (·.kind) hplaced
  exact ⟨_, mem_nodes_ofGraph.2 ⟨⟨i⟩, hlt, rfl⟩, congrArg (·.id) hplaced,
    congrArg (·.process) hplaced, by simp [Node.declared, hkind], by simp [Node.declared, hkind]⟩

theorem admits_of_build (h : d.build = .ok g) {n : NodeId} (hn : index n < g.nodes.size) :
    (ofGraph g).Admits (g.node n).declared := by
  have hw := wellFormed_of_build h
  have hcovers := covers_of_build h
  obtain ⟨x, hx, hid, hprocess, depth, hkind, hnested⟩ := exists_declared_of_build h hn
  refine ⟨?_, ?_, ?_, fun trigger activity hk => ?_, fun k hk => ?_⟩
  · rw [Node.declared, hid, hcovers.processId]
    exact hw.root x hx
  · rw [Node.declared, hid, hprocess]
    exact hw.apart x hx
  · rw [Node.declared, hprocess]
    exact hcovers.isProcess (hw.process x hx)
  · obtain ⟨m, hm, hmid, hactivity⟩ := hw.boundary x hx trigger activity
      (NodeKind.atDepth_eq_boundaryEvent.1 (hkind.symm.trans hk))
    obtain ⟨m', hm', hid', -, -, hactivity'⟩ := hcovers.node m hm
    exact ⟨m', hm', hid'.trans hmid, hactivity'.trans hactivity⟩
  · obtain ⟨hsub, rfl⟩ := NodeKind.atDepth_eq_subprocess.1 (hkind.symm.trans hk)
    rw [Node.declared, hid]
    exact hcovers.nested (hnested hsub)

theorem isProcess_of_build (h : d.build = .ok g) {f : FlowId} (hf : index f < g.flows.size) :
    (ofGraph g).isProcess (g.flow f).process := by
  have hw := wellFormed_of_build h
  obtain ⟨hids, hd⟩ := declares_of_build h
  have hlt : index f < d.flows.length := hd.flowCount ▸ hf
  have hdescribed := hd.flow _ _ (List.getElem?_eq_getElem hlt)
  have hprocess : (g.flow f).process = (d.flows[index f].process).getD _ :=
    Option.some.inj (congrArg (·.process) hdescribed)
  have hsource : (g.node (g.flow f).source).id = d.flows[index f].source :=
    congrArg (·.source) hdescribed
  rw [hprocess]
  cases hp : d.flows[index f].process with
  | some process => exact (covers_of_build h).isProcess (hw.flowProcess _ (List.getElem_mem hlt) _ hp)
  | none =>
    have hs := hd.linked.source f hf
    rw [Option.getD_none, ← hsource, hd.processOf_eq hids hs]
    exact (admits_of_build h hs).process

theorem sound_of_build (h : d.build = .ok g) : g.Sound where
  tidy := tidy_of_build h
  distinct := (declares_of_build h).2.distinct
  node _ := admits_of_build h
  flow _ := isProcess_of_build h

theorem eq_map_of_getElem? {α β : Type} {f : α → β} {l : List α} {l' : List β}
    (hlength : l'.length = l.length) (h : ∀ (i : Nat) (a : α), l[i]? = some a → l'[i]? = some (f a)) :
    l' = l.map f := by
  refine List.ext_getElem? fun i => ?_
  rw [List.getElem?_map]
  cases hi : l[i]? with
  | none => exact List.getElem?_eq_none (hlength ▸ List.getElem?_eq_none_iff.1 hi)
  | some a => exact h i a hi

/-- `ofGraph` describes a graph that was built by its declarations, with every subprocess at its depth
and every process filled in. -/
theorem ofGraph_of_build (h : d.build = .ok g) : ofGraph g = { d with
    nodes := d.nodes.map fun n => { n with kind := n.kind.atDepth ((d.depth? n.id).getD 0) }
    flows := d.flows.map d.completed } := by
  obtain ⟨-, hd⟩ := declares_of_build h
  have hnodes : (ofGraph g).nodes =
      d.nodes.map fun n => { n with kind := n.kind.atDepth ((d.depth? n.id).getD 0) } := by
    refine eq_map_of_getElem? ((List.length_map _).trans hd.nodeCount) fun i n hi => ?_
    obtain ⟨depth, hdepth, hplaced⟩ := place_eq_ok_iff.1 (hd.node i n hi)
    have hkind : n.kind.atDepth ((d.depth? n.id).getD 0) = n.kind.atDepth depth :=
      NodeKind.atDepth_congr fun hkind => by rw [hdepth hkind, Option.getD_some]
    rw [hkind]
    refine getElem?_nodes_ofGraph.2
      ⟨hd.nodeCount.symm ▸ (List.getElem?_eq_some_iff.1 hi).1, ?_⟩
    rw [← Node.declared_bare, hplaced]
    rfl
  have hflows : (ofGraph g).flows = d.flows.map d.completed := by
    refine eq_map_of_getElem? ((List.length_map _).trans hd.flowCount) fun i f hi => ?_
    exact getElem?_flows_ofGraph.2 ⟨hd.flowCount.symm ▸ (List.getElem?_eq_some_iff.1 hi).1,
      hd.flow i f hi⟩
  have hwhole : ofGraph g = ⟨g.processId, g.name, (ofGraph g).nodes, (ofGraph g).flows⟩ := rfl
  rw [hwhole, hnodes, hflows, hd.processId, hd.name]

end ProcessDeclaration

/-! ## Gateway form -/

namespace ProcessGraph

open ProcessDeclaration

variable {g g' : ProcessGraph} {n : NodeId} {gateway : Node} {connector : Flow} {move : Flow → Flow}

theorem Rerouted.declared_old (h : Rerouted g gateway connector move g')
    (hn : index n < g.nodes.size) : (g'.node n).declared = (g.node n).declared := by
  rw [← Node.declared_bare, h.node_old hn, Node.declared_bare]

theorem Rerouted.declared_next (h : Rerouted g gateway connector move g') :
    (g'.node g.nodes.next).declared = gateway.declared := by
  rw [← Node.declared_bare, h.bare, if_pos rfl]

theorem Rerouted.covers (h : Rerouted g gateway connector move g') :
    Covers (ofGraph g) (ofGraph g') := by
  refine ⟨h.processId, fun x hx => ?_⟩
  obtain ⟨n, hn, rfl⟩ := mem_nodes_ofGraph.1 hx
  have hn' : index n < g'.nodes.size := h.nodeCount.symm ▸ Nat.lt_succ_of_lt hn
  exact ⟨_, mem_nodes_ofGraph.2 ⟨n, hn', h.declared_old hn⟩, rfl, rfl, rfl, rfl⟩

/-- A gateway finds its place where its owner has one, and so does the flow between them. -/
theorem Sound.rerouted (hg : g.Sound) (h : Rerouted g gateway connector move g') (htidy : g'.Tidy)
    (hn : index n < g.nodes.size) (hkind : ∃ direction, gateway.kind = .gateway .exclusive direction)
    (hprocess : gateway.process = (g.node n).process) (hconnector : connector.process = gateway.process)
    (hid : connector.id = connectorId gateway.id) (hmove : ∀ x, (move x).id = x.id)
    (hmoveProcess : ∀ x, (move x).process = x.process) {owner : String}
    (hfree : g.obstacle? owner gateway = none) : g'.Sound := by
  have hcovers := h.covers
  have howner : (ofGraph g).isProcess gateway.process := hprocess ▸ (hg.node n hn).process
  refine ⟨htidy, h.distinct hg.distinct hmove hid hfree, fun m hm => ?_, fun f hf => ?_⟩
  · rw [h.nodeCount, Arena.lt_succ_iff_next] at hm
    rcases hm with hm | rfl
    · rw [h.declared_old hm]
      exact hcovers.admits (hg.node m hm)
    · unfold obstacle? at hfree
      split at hfree
      · cases hfree
      rename_i hunknown
      split at hfree
      · cases hfree
      rename_i hroot
      rw [isSome_nodeById?_iff] at hunknown
      obtain ⟨direction, hkind⟩ := hkind
      rw [h.declared_next]
      refine ⟨fun he => hroot (he.trans h.processId), fun he => ?_, hcovers.isProcess howner,
        fun trigger activity hk => ?_, fun depth hk => ?_⟩
      · rcases isProcess_iff.1 howner with hp | ⟨x, hx, hxid, -⟩
        · exact hroot (he.symm.trans hp)
        · obtain ⟨m, hm, rfl⟩ := mem_nodes_ofGraph.1 hx
          exact hunknown ⟨m, hm, hxid.trans he⟩
      · cases hkind.symm.trans hk
      · cases hkind.symm.trans hk
  · rw [h.flowCount, Arena.lt_succ_iff_next] at hf
    rcases hf with hf | rfl
    · rw [h.flow f hf, hmoveProcess]
      exact hcovers.isProcess (hg.flow f hf)
    · rw [h.connector, hconnector]
      exact hcovers.isProcess howner

theorem Sound.joinIncoming (hg : g.Sound) (hn : index n < g.nodes.size)
    (h : g.joinIncoming n = .ok g') : g'.Sound := by
  have hfree : g.obstacle? (g.node n).id (joinGateway (g.node n)) = none := by
    rw [← error?_joinIncoming hg.tidy.linked, h]
    rfl
  exact hg.rerouted (rerouted_joinIncoming hg.tidy.linked hn h) (hg.tidy.joinIncoming hn h) hn
    ⟨_, rfl⟩ rfl rfl rfl (id_leadInto _ _) (process_leadInto _ _) hfree

theorem Sound.splitOutgoing (hg : g.Sound) (hn : index n < g.nodes.size)
    (h : g.splitOutgoing n = .ok g') : g'.Sound := by
  have hfree : g.obstacle? (g.node n).id (splitGateway (g.node n)) = none := by
    rw [← error?_splitOutgoing hg.tidy.linked, h]
    rfl
  exact hg.rerouted (rerouted_splitOutgoing hg.tidy.linked hn h) (hg.tidy.splitOutgoing hn h) hn
    ⟨_, rfl⟩ rfl rfl rfl (id_leadOutOf _ _) (process_leadOutOf _ _) hfree

theorem Sound.normalize (hg : g.Sound) (h : g.normalize = .ok g') : g'.Sound :=
  keeps_normalize (P := Sound) (fun _ _ _ _ hn _ _ hg h => hg.joinIncoming hn h)
    (fun _ _ _ _ hn _ _ hg h => hg.splitOutgoing hn h) hg.tidy.linked hg.distinct hg h

end ProcessGraph

end ProcessNet
