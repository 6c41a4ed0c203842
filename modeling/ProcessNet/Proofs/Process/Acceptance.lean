/-
What the builder accepts, and what it makes of it. It accepts just the declarations that fit together.
The graph that it answers has the declared nodes and flows in their order, finds each of them by its id,
and lists each flow at its two ends, in the order of the declarations, and nowhere else.
-/
import ProcessNet.Proofs.Process.Document

namespace ProcessNet

open Identifier

/-! ## Graphs with distinct ids -/

namespace ProcessGraph

variable {g : ProcessGraph} {id : String} {n : NodeId} {f : FlowId}

theorem flowById?_eq_some (h : g.flowById? id = some f) :
    index f < g.flows.size ∧ (g.flow f).id = id := by
  obtain ⟨k, hk, rfl⟩ := Option.map_eq_some_iff.1 h
  obtain ⟨hlt, hid, -⟩ := List.findIdx?_eq_some_iff_getElem.1 hk
  refine ⟨hlt, ?_⟩
  rw [flow_mk hlt]
  exact of_decide_eq_true hid

theorem Distinct.nodeById?_eq_some_iff (hd : g.Distinct) :
    g.nodeById? id = some n ↔ index n < g.nodes.size ∧ (g.node n).id = id := by
  refine ⟨ProcessDeclaration.nodeById?_eq_some, fun ⟨hn, hid⟩ => ?_⟩
  obtain ⟨m, hm⟩ := Option.isSome_iff_exists.1 (isSome_nodeById?_iff.2 ⟨n, hn, hid⟩)
  obtain ⟨hlt, hmid⟩ := ProcessDeclaration.nodeById?_eq_some hm
  rw [hm, hd.node m n hlt hn (hmid.trans hid.symm)]

theorem Distinct.flowById?_eq_some_iff (hd : g.Distinct) :
    g.flowById? id = some f ↔ index f < g.flows.size ∧ (g.flow f).id = id := by
  refine ⟨flowById?_eq_some, fun ⟨hf, hid⟩ => ?_⟩
  obtain ⟨k, hk⟩ := Option.isSome_iff_exists.1 (isSome_flowById?_iff.2 ⟨f, hf, hid⟩)
  obtain ⟨hlt, hkid⟩ := flowById?_eq_some hk
  rw [hk, hd.flow k f hlt hf (hkid.trans hid.symm)]

/-- Of all flows those that leave a node are listed there, in order. -/
theorem Tidy.outgoing_eq (hg : g.Tidy) (n : NodeId) :
    (g.node n).outgoing = g.flows.ids.filter fun f => (g.flow f).source = n := by
  refine (hg.outgoing n).ext ((Arena.ascending_ids _).filter _) fun f => ?_
  rw [hg.linked.mem_outgoing, List.mem_filter, Arena.mem_ids, decide_eq_true_eq]

/-- Of all flows those that lead into a node are listed there, in order. -/
theorem Tidy.incoming_eq (hg : g.Tidy) (n : NodeId) :
    (g.node n).incoming = g.flows.ids.filter fun f => (g.flow f).target = n := by
  refine (hg.incoming n).ext ((Arena.ascending_ids _).filter _) fun f => ?_
  rw [hg.linked.mem_incoming, List.mem_filter, Arena.mem_ids, decide_eq_true_eq]

end ProcessGraph

/-! ## What is declared -/

namespace ProcessDeclaration

variable {d : ProcessDeclaration} {g : ProcessGraph}

/-- The process that `addFlow` gives to a declared flow. -/
def processOfFlow (d : ProcessDeclaration) (f : FlowDeclaration) : String :=
  f.process.getD (d.processOf f.source)

/-- A flow without a process of its own belongs to one, since its source does. -/
theorem WellFormed.isProcess_processOfFlow (h : d.WellFormed) {f : FlowDeclaration}
    (hf : f ∈ d.flows) : d.isProcess (d.processOfFlow f) := by
  unfold processOfFlow
  cases hp : f.process with
  | some process => exact h.flowProcess f hf process hp
  | none =>
    obtain ⟨n, hn, hid⟩ := h.source f hf
    rw [← hid, Option.getD_none, processOf_of_mem h.ids hn]
    exact h.process n hn

/-- `g` has what `d` declares, in the order of the declarations. -/
structure Realized (d : ProcessDeclaration) (g : ProcessGraph) : Prop where
  processId : g.processId = d.processId
  name : g.name = d.name
  nodeCount : g.nodes.size = d.nodes.length
  node : ∀ i x, d.nodes[i]? = some x → (g.node ⟨i⟩).id = x.id ∧ (g.node ⟨i⟩).name = x.name ∧
    (g.node ⟨i⟩).process = x.process ∧ ∃ depth, (g.node ⟨i⟩).kind = x.kind.atDepth depth ∧
      (x.kind.isSubprocess → d.Nested x.id depth)
  nodeById : ∀ i x, d.nodes[i]? = some x → g.nodeById? x.id = some ⟨i⟩
  flowCount : g.flows.size = d.flows.length
  flow : ∀ i x, d.flows[i]? = some x → (g.flow ⟨i⟩).id = x.id ∧ (g.flow ⟨i⟩).name = x.name ∧
    (g.flow ⟨i⟩).kind = x.kind ∧ (g.flow ⟨i⟩).process = d.processOfFlow x
  flowById : ∀ i x, d.flows[i]? = some x → g.flowById? x.id = some ⟨i⟩
  ends : ∀ i x, d.flows[i]? = some x → g.nodeById? x.source = some (g.flow ⟨i⟩).source ∧
    g.nodeById? x.target = some (g.flow ⟨i⟩).target
  outgoing : ∀ n, (g.node n).outgoing = g.flows.ids.filter fun f => (g.flow f).source = n
  incoming : ∀ n, (g.node n).incoming = g.flows.ids.filter fun f => (g.flow f).target = n

theorem realized_of_build (h : d.build = .ok g) : d.Realized g := by
  obtain ⟨-, hd⟩ := declares_of_build h
  have htidy := tidy_of_build h
  have hnode : ∀ i x, d.nodes[i]? = some x → i < g.nodes.size := fun i x hi =>
    hd.nodeCount.symm ▸ (List.getElem?_eq_some_iff.1 hi).1
  have hflow : ∀ i x, d.flows[i]? = some x → i < g.flows.size := fun i x hi =>
    hd.flowCount.symm ▸ (List.getElem?_eq_some_iff.1 hi).1
  refine {
    processId := hd.processId
    name := hd.name
    nodeCount := hd.nodeCount
    node := fun i x hi => ?_
    nodeById := fun i x hi => ?_
    flowCount := hd.flowCount
    flow := fun i x hi => ?_
    flowById := fun i x hi => ?_
    ends := fun i x hi => ?_
    outgoing := htidy.outgoing_eq
    incoming := htidy.incoming_eq }
  · obtain ⟨depth, hdepth, hbare⟩ := place_eq_ok_iff.1 (hd.node i x hi)
    exact ⟨congrArg (·.id) hbare, congrArg (·.name) hbare, congrArg (·.process) hbare, depth,
      congrArg (·.kind) hbare, fun hkind => nested_of_depthWithin? (hdepth hkind)⟩
  · exact hd.distinct.nodeById?_eq_some_iff.2 ⟨hnode i x hi, (place_eq_ok (hd.node i x hi)).1⟩
  · have hdescribed := hd.flow i x hi
    exact ⟨congrArg (·.id) hdescribed, congrArg (·.name) hdescribed,
      congrArg (·.kind) hdescribed, Option.some.inj (congrArg (·.process) hdescribed)⟩
  · exact hd.distinct.flowById?_eq_some_iff.2
      ⟨hflow i x hi, congrArg (·.id) (hd.flow i x hi)⟩
  · have hdescribed := hd.flow i x hi
    exact ⟨hd.distinct.nodeById?_eq_some_iff.2
        ⟨hd.linked.source _ (hflow i x hi), congrArg (·.source) hdescribed⟩,
      hd.distinct.nodeById?_eq_some_iff.2
        ⟨hd.linked.target _ (hflow i x hi), congrArg (·.target) hdescribed⟩⟩

/-- `build` accepts declarations if and only if they fit together and each flow belongs to a process, its
own or that of its source. What is accepted becomes the graph that was declared. -/
theorem build_accepts_iff (d : ProcessDeclaration) :
    ((∃ g, d.build = .ok g) ↔
      d.WellFormed ∧ ∀ f ∈ d.flows, d.isProcess (d.processOfFlow f)) ∧
    ∀ g, d.build = .ok g → d.Realized g := by
  refine ⟨⟨?_, fun h => h.1.exists_build⟩, fun g h => realized_of_build h⟩
  rintro ⟨g, h⟩
  have hwell := wellFormed_of_build h
  exact ⟨hwell, fun f hf => hwell.isProcess_processOfFlow hf⟩

/-- The task with a flow to itself is found by its id, and lists that flow at both ends. -/
theorem build_accepts_retried : retried.WellFormed ∧
    retriedGraph.nodeById? "t" = some ⟨3⟩ ∧ (retriedGraph.node ⟨3⟩).outgoing = [⟨1⟩] := by
  have hbuild : retried.build = .ok retriedGraph := by decide +kernel
  obtain ⟨haccepts, hrealized⟩ := build_accepts_iff retried
  refine ⟨(haccepts.1 ⟨_, hbuild⟩).1, (hrealized _ hbuild).nodeById 3 _ rfl, ?_⟩
  rw [(hrealized _ hbuild).outgoing]
  decide

end ProcessDeclaration

end ProcessNet
