/-
Gateway form, step by step. A gateway in front of a node or behind it gets in unless its id or that of
its flow is taken; the node is left with one flow on that side, and no other node of the graph loses or
gains a flow. So a graph that all nodes have been through is in gateway form.
-/
import Mathlib.Data.List.Perm.Subperm
import ProcessNet.Proofs.Process.Linked

namespace ProcessNet.ProcessGraph

open Identifier

variable {g g' : ProcessGraph} {f k : FlowId} {n m t : NodeId}

/-! ## Gateways in front of nodes and behind them -/

/-- `g'` is `g` with the node `gateway` and the flow `connector` added and the flows changed by
`move`. -/
structure Rerouted (g : ProcessGraph) (gateway : Node) (connector : Flow) (move : Flow → Flow)
    (g' : ProcessGraph) : Prop where
  linked : g'.Linked
  processId : g'.processId = g.processId
  name : g'.name = g.name
  nodeCount : g'.nodes.size = g.nodes.size + 1
  flowCount : g'.flows.size = g.flows.size + 1
  bare : ∀ m, (g'.node m).bare = if m = g.nodes.next then gateway else (g.node m).bare
  flow : ∀ f, index f < g.flows.size → g'.flow f = move (g.flow f)
  connector : g'.flow g.flows.next = connector

/-- The gateway that `joinIncoming` puts in front of a node. -/
def joinGateway (owner : Node) : Node where
  id := joinId owner.id
  name := some (joinId owner.id)
  kind := .gateway .exclusive .converging
  process := owner.process

/-- The gateway that `splitOutgoing` puts behind a node. -/
def splitGateway (owner : Node) : Node where
  id := splitId owner.id
  name := some (splitId owner.id)
  kind := .gateway .exclusive .diverging
  process := owner.process

/-- The flow between a node and its gateway. -/
def connectorFlow (gateway : Node) (source target : NodeId) : Flow where
  id := connectorId gateway.id
  name := none
  kind := .sequence
  source := source
  target := target
  process := gateway.process

/-- Leads a flow into the gateway in front of `n` if it leads into `n`. -/
def leadInto (n gateway : NodeId) (x : Flow) : Flow :=
  if x.target = n then { x with target := gateway } else x

/-- Lets a flow leave the gateway behind `n` if it leaves `n`. -/
def leadOutOf (n gateway : NodeId) (x : Flow) : Flow :=
  if x.source = n then { x with source := gateway } else x

section Leading

variable (n t : NodeId) (x : Flow)

/-- Nothing but the target of the flow changes. -/
theorem leadInto_eq : { leadInto n t x with source := x.source, target := x.target } = x := by
  unfold leadInto
  split <;> rfl

theorem leadOutOf_eq : { leadOutOf n t x with source := x.source, target := x.target } = x := by
  unfold leadOutOf
  split <;> rfl

@[simp]
theorem id_leadInto : (leadInto n t x).id = x.id :=
  congrArg (·.id) (leadInto_eq n t x)

@[simp]
theorem id_leadOutOf : (leadOutOf n t x).id = x.id :=
  congrArg (·.id) (leadOutOf_eq n t x)

@[simp]
theorem process_leadInto : (leadInto n t x).process = x.process :=
  congrArg (·.process) (leadInto_eq n t x)

@[simp]
theorem process_leadOutOf : (leadOutOf n t x).process = x.process :=
  congrArg (·.process) (leadOutOf_eq n t x)

@[simp]
theorem source_leadInto : (leadInto n t x).source = x.source := by
  unfold leadInto
  split <;> rfl

@[simp]
theorem target_leadOutOf : (leadOutOf n t x).target = x.target := by
  unfold leadOutOf
  split <;> rfl

theorem target_leadInto : (leadInto n t x).target = if x.target = n then t else x.target := by
  unfold leadInto
  split <;> rfl

theorem source_leadOutOf : (leadOutOf n t x).source = if x.source = n then t else x.source := by
  unfold leadOutOf
  split <;> rfl

variable {n t} {x}

theorem target_leadInto_ne (ht : n ≠ t) : (leadInto n t x).target ≠ n := by
  rw [target_leadInto]
  split
  · exact ht.symm
  · assumption

theorem source_leadOutOf_ne (ht : n ≠ t) : (leadOutOf n t x).source ≠ n := by
  rw [source_leadOutOf]
  split
  · exact ht.symm
  · assumption

/-- No other node loses or gains the flow. -/
theorem target_leadInto_eq_iff (hn : m ≠ n) (ht : m ≠ t) :
    (leadInto n t x).target = m ↔ x.target = m := by
  rw [target_leadInto]
  split
  · rename_i hx
    exact ⟨fun he => absurd he.symm ht, fun he => absurd (he.symm.trans hx) hn⟩
  · rfl

theorem source_leadOutOf_eq_iff (hn : m ≠ n) (ht : m ≠ t) :
    (leadOutOf n t x).source = m ↔ x.source = m := by
  rw [source_leadOutOf]
  split
  · rename_i hx
    exact ⟨fun he => absurd he.symm ht, fun he => absurd (he.symm.trans hx) hn⟩
  · rfl

end Leading

theorem connect_eq {gateway process : String} {source target : NodeId} :
    g.connect gateway process source target =
      if (g.flowById? (connectorId gateway)).isSome then
        .error (.graph (.duplicateFlow (connectorId gateway)))
      else .ok (g.withFlow ⟨connectorId gateway, none, .sequence, source, target, process⟩) := by
  unfold connect insertFlow
  split <;> rfl

theorem rerouted_of_moved {gateway : Node} {connector : Flow} {g₂ : ProcessGraph}
    {move : Flow → Flow} {move' : FlowId → Flow → Flow} (hbare : gateway.bare = gateway)
    (hmoved : ({ g with nodes := g.nodes.push gateway } : ProcessGraph).Moved move' g₂)
    (hmove : ∀ f, index f < g.flows.size → move' f (g.flow f) = move (g.flow f))
    (hs : index connector.source < g.nodes.size + 1)
    (ht : index connector.target < g.nodes.size + 1) :
    Rerouted g gateway connector move (g₂.withFlow connector) := by
  have hnodes : g₂.nodes.size = g.nodes.size + 1 := hmoved.nodeCount.trans Arena.size_push
  have hnext : g₂.flows.next = g.flows.next := congrArg ofIndex hmoved.flowCount
  have hs' : index connector.source < g₂.nodes.size := hnodes ▸ hs
  have ht' : index connector.target < g₂.nodes.size := hnodes ▸ ht
  refine ⟨hmoved.linked.withFlow hs' ht', hmoved.processId, hmoved.name, ?_, ?_, fun m => ?_,
    fun f hf => ?_, ?_⟩
  · rw [size_nodes_withFlow, hnodes]
  · rw [size_flows_withFlow, hmoved.flowCount]
  · rw [bare_withFlow hs' ht', hmoved.bare, node_push]
    split
    · exact hbare
    · rfl
  · rw [flow_withFlow, hnext, if_neg (Arena.ne_next_of_lt hf), hmoved.flow]
    exact hmove f hf
  · rw [flow_withFlow, hnext, if_pos rfl]

theorem rerouted_joinIncoming (hg : g.Linked) (hn : index n < g.nodes.size)
    (h : g.joinIncoming n = .ok g') :
    Rerouted g (joinGateway (g.node n)) (connectorFlow (joinGateway (g.node n)) g.nodes.next n)
      (leadInto n g.nodes.next) g' := by
  obtain ⟨g₁, gateway, hinsert, hconnect⟩ := joinIncoming_eq_ok h
  obtain ⟨rfl, rfl⟩ := insertGateway_eq_ok hinsert
  have hg₁ := hg.push (x := joinGateway (g.node n)) rfl rfl
  have hincoming := hg₁.mem_incoming n
  have hnext : index g.nodes.next < g.nodes.size + 1 := Arena.lt_succ_iff_next.2 (.inr rfl)
  have hmoved := moved_foldl_redirectTarget hg₁ (fun f hf => ((hincoming f).1 hf).1)
    (Arena.size_push.symm ▸ hnext)
  rw [connect_eq] at hconnect
  split at hconnect
  · cases hconnect
  cases hconnect
  refine rerouted_of_moved rfl hmoved (fun f hf => ?_) hnext (Nat.lt_succ_of_lt hn)
  rw [leadInto]
  by_cases hfn : (g.flow f).target = n
  · rw [if_pos hfn, if_pos ((hincoming f).2 ⟨hf, hfn⟩)]
  · rw [if_neg hfn, if_neg fun hmem => hfn ((hincoming f).1 hmem).2]

theorem rerouted_splitOutgoing (hg : g.Linked) (hn : index n < g.nodes.size)
    (h : g.splitOutgoing n = .ok g') :
    Rerouted g (splitGateway (g.node n)) (connectorFlow (splitGateway (g.node n)) n g.nodes.next)
      (leadOutOf n g.nodes.next) g' := by
  obtain ⟨g₁, gateway, hinsert, hconnect⟩ := splitOutgoing_eq_ok h
  obtain ⟨rfl, rfl⟩ := insertGateway_eq_ok hinsert
  have hg₁ := hg.push (x := splitGateway (g.node n)) rfl rfl
  have houtgoing := hg₁.mem_outgoing n
  have hnext : index g.nodes.next < g.nodes.size + 1 := Arena.lt_succ_iff_next.2 (.inr rfl)
  have hmoved := moved_foldl_redirectSource hg₁ (fun f hf => ((houtgoing f).1 hf).1)
    (Arena.size_push.symm ▸ hnext)
  rw [connect_eq] at hconnect
  split at hconnect
  · cases hconnect
  cases hconnect
  refine rerouted_of_moved rfl hmoved (fun f hf => ?_) (Nat.lt_succ_of_lt hn) hnext
  rw [leadOutOf]
  by_cases hfn : (g.flow f).source = n
  · rw [if_pos hfn, if_pos ((houtgoing f).2 ⟨hf, hfn⟩)]
  · rw [if_neg hfn, if_neg fun hmem => hfn ((houtgoing f).1 hmem).2]

/-! ## What can stand in the way -/

/-- What stands in the way of a gateway: its id or that of its flow is taken. -/
def obstacle? (g : ProcessGraph) (owner : String) (gateway : Node) : Option GatewayFormError :=
  if (g.nodeById? gateway.id).isSome then some (.gatewayIdTaken owner gateway.id)
  else if gateway.id = g.processId then some (.graph (.duplicateNode gateway.id))
  else if (g.flowById? (connectorId gateway.id)).isSome then
    some (.graph (.duplicateFlow (connectorId gateway.id)))
  else none

theorem isSome_findIdx?_iff {ι α : Type} [Identifier ι] {a : Arena ι α} {p : α → Bool} {d : α} :
    (a.items.findIdx? p).isSome ↔ ∃ i : ι, index i < a.size ∧ p ((a.get? i).getD d) := by
  rw [List.findIdx?_isSome, List.any_eq_true]
  constructor
  · rintro ⟨x, hx, hp⟩
    obtain ⟨k, hk, rfl⟩ := List.mem_iff_getElem.1 hx
    refine ⟨ofIndex k, by rwa [index_ofIndex], ?_⟩
    rwa [Arena.get?, index_ofIndex, List.getElem?_eq_getElem hk]
  · rintro ⟨i, hi, hp⟩
    rw [Arena.get?, List.getElem?_eq_getElem hi] at hp
    exact ⟨_, List.getElem_mem hi, hp⟩

theorem isSome_nodeById?_iff {id : String} :
    (g.nodeById? id).isSome ↔ ∃ n, index n < g.nodes.size ∧ (g.node n).id = id := by
  rw [nodeById?, Option.isSome_map, isSome_findIdx?_iff]
  simp only [decide_eq_true_eq]
  rfl

theorem isSome_flowById?_iff {id : String} :
    (g.flowById? id).isSome ↔ ∃ f, index f < g.flows.size ∧ (g.flow f).id = id := by
  rw [flowById?, Option.isSome_map, isSome_findIdx?_iff]
  simp only [decide_eq_true_eq]
  rfl

theorem insertGateway_eq (g : ProcessGraph) (owner gateway : Node) (direction : GatewayDirection)
    (hgateway : gateway =
      { id := gateway.id, name := some gateway.id, kind := .gateway .exclusive direction,
        process := owner.process }) :
    g.insertGateway owner gateway.id direction =
      if (g.nodeById? gateway.id).isSome then .error (.gatewayIdTaken owner.id gateway.id)
      else if gateway.id = g.processId then .error (.graph (.duplicateNode gateway.id))
      else .ok ({ g with nodes := g.nodes.push gateway }, g.nodes.next) := by
  unfold insertGateway insertNode
  rw [← hgateway]
  by_cases hold : (g.nodeById? gateway.id).isSome
  · rw [if_pos hold, if_pos hold]
  · rw [if_neg hold, if_neg hold]
    by_cases hroot : gateway.id = g.processId
    · rw [if_pos hroot, if_pos (.inr hroot)]
      rfl
    · rw [if_neg hroot, if_neg (not_or.2 ⟨hold, hroot⟩)]
      rfl

theorem Moved.isSome_flowById?_iff {move : FlowId → Flow → Flow} (h : g.Moved move g')
    (hmove : ∀ f x, (move f x).id = x.id) {id : String} :
    (g'.flowById? id).isSome ↔ (g.flowById? id).isSome := by
  simp only [ProcessGraph.isSome_flowById?_iff, h.flowCount, h.flow, hmove]

/-- Why an operation fails, if it does. -/
def error? {ε α : Type} : Except ε α → Option ε
  | .ok _ => none
  | .error e => some e

/-- `joinIncoming` gets a gateway in unless something stands in the way. -/
theorem error?_joinIncoming (hg : g.Linked) (n : NodeId) :
    error? (g.joinIncoming n) = g.obstacle? (g.node n).id (joinGateway (g.node n)) := by
  have hinsert := insertGateway_eq g (g.node n) (joinGateway (g.node n)) .converging rfl
  change error? (g.insertGateway (g.node n) (joinGateway (g.node n)).id .converging >>= fun r =>
    ((r.1.node n).incoming.foldl (fun g f => g.redirectTarget f r.2) r.1).connect
      (joinGateway (g.node n)).id (g.node n).process r.2 n) = _
  rw [hinsert, obstacle?]
  by_cases hold : (g.nodeById? (joinGateway (g.node n)).id).isSome
  · rw [if_pos hold, if_pos hold]
    rfl
  by_cases hroot : (joinGateway (g.node n)).id = g.processId
  · rw [if_neg hold, if_neg hold, if_pos hroot, if_pos hroot]
    rfl
  rw [if_neg hold, if_neg hold, if_neg hroot, if_neg hroot]
  have hg₁ := hg.push (x := joinGateway (g.node n)) rfl rfl
  have hmoved := moved_foldl_redirectTarget hg₁
    (fun f hf => ((hg₁.mem_incoming n f).1 hf).1) (t := g.nodes.next)
    (Arena.size_push.symm ▸ Arena.lt_succ_iff_next.2 (.inr rfl))
  change error? (connect _ _ _ _ _) = _
  rw [connect_eq]
  simp only [hmoved.isSome_flowById?_iff fun f x => by split <;> rfl]
  change error? (if (g.flowById? _).isSome then _ else _) = _
  split <;> rfl

/-- `splitOutgoing` gets a gateway in unless something stands in the way. -/
theorem error?_splitOutgoing (hg : g.Linked) (n : NodeId) :
    error? (g.splitOutgoing n) = g.obstacle? (g.node n).id (splitGateway (g.node n)) := by
  have hinsert := insertGateway_eq g (g.node n) (splitGateway (g.node n)) .diverging rfl
  change error? (g.insertGateway (g.node n) (splitGateway (g.node n)).id .diverging >>= fun r =>
    ((r.1.node n).outgoing.foldl (fun g f => g.redirectSource f r.2) r.1).connect
      (splitGateway (g.node n)).id (g.node n).process n r.2) = _
  rw [hinsert, obstacle?]
  by_cases hold : (g.nodeById? (splitGateway (g.node n)).id).isSome
  · rw [if_pos hold, if_pos hold]
    rfl
  by_cases hroot : (splitGateway (g.node n)).id = g.processId
  · rw [if_neg hold, if_neg hold, if_pos hroot, if_pos hroot]
    rfl
  rw [if_neg hold, if_neg hold, if_neg hroot, if_neg hroot]
  have hg₁ := hg.push (x := splitGateway (g.node n)) rfl rfl
  have hmoved := moved_foldl_redirectSource hg₁
    (fun f hf => ((hg₁.mem_outgoing n f).1 hf).1) (t := g.nodes.next)
    (Arena.size_push.symm ▸ Arena.lt_succ_iff_next.2 (.inr rfl))
  change error? (connect _ _ _ _ _) = _
  rw [connect_eq]
  simp only [hmoved.isSome_flowById?_iff fun f x => by split <;> rfl]
  change error? (if (g.flowById? _).isSome then _ else _) = _
  split <;> rfl

/-! ## What gateways keep -/

section Rerouted

variable {gateway : Node} {connector : Flow} {move : Flow → Flow}

theorem Rerouted.node_old (h : Rerouted g gateway connector move g') (hm : index m < g.nodes.size) :
    (g'.node m).bare = (g.node m).bare := by
  rw [h.bare, if_neg (Arena.ne_next_of_lt hm)]

theorem Rerouted.distinct (h : Rerouted g gateway connector move g') (hg : g.Distinct)
    (hmove : ∀ x, (move x).id = x.id) (hid : connector.id = connectorId gateway.id) {owner : String}
    (hfree : g.obstacle? owner gateway = none) : g'.Distinct := by
  unfold obstacle? at hfree
  split at hfree
  · cases hfree
  rename_i hnode
  split at hfree
  · cases hfree
  split at hfree
  · cases hfree
  rename_i hflow
  rw [isSome_nodeById?_iff] at hnode
  rw [isSome_flowById?_iff] at hflow
  -- `obstacle?` has looked for both new ids, that of the gateway and that of its flow
  have hidOf : ∀ n, (g'.node n).id = if n = g.nodes.next then gateway.id else (g.node n).id := by
    intro n
    have hbare := congrArg Node.id (h.bare n)
    split at hbare
    · rename_i hn
      rw [if_pos hn]
      exact hbare
    · rename_i hn
      rw [if_neg hn]
      exact hbare
  refine ⟨fun n m hn hm he => ?_, fun f k hf hk he => ?_⟩
  · rw [h.nodeCount, Arena.lt_succ_iff_next] at hn hm
    rw [hidOf, hidOf] at he
    by_cases hn' : n = g.nodes.next
    · by_cases hm' : m = g.nodes.next
      · rw [hn', hm']
      · rw [if_pos hn', if_neg hm'] at he
        exact absurd ⟨m, hm.resolve_right hm', he.symm⟩ hnode
    · by_cases hm' : m = g.nodes.next
      · rw [if_neg hn', if_pos hm'] at he
        exact absurd ⟨n, hn.resolve_right hn', he⟩ hnode
      · rw [if_neg hn', if_neg hm'] at he
        exact hg.node n m (hn.resolve_right hn') (hm.resolve_right hm') he
  · rw [h.flowCount, Arena.lt_succ_iff_next] at hf hk
    rcases hf with hf | rfl
    · rcases hk with hk | rfl
      · rw [h.flow f hf, h.flow k hk, hmove, hmove] at he
        exact hg.flow f k hf hk he
      · rw [h.flow f hf, hmove, h.connector, hid] at he
        exact absurd ⟨f, hf, he⟩ hflow
    · rcases hk with hk | rfl
      · rw [h.flow k hk, hmove, h.connector, hid] at he
        exact absurd ⟨k, hk, he.symm⟩ hflow
      · rfl

/-- Where no flow comes or goes, the list of flows is the same up to its order. -/
theorem Rerouted.perm_incoming (h : Rerouted g gateway connector move g') (hg : g.Linked)
    (hconnector : connector.target ≠ m) (hmove : ∀ x, (move x).target = m ↔ x.target = m) :
    (g'.node m).incoming.Perm (g.node m).incoming := by
  refine (List.perm_ext_iff_of_nodup (h.linked.nodup_incoming m) (hg.nodup_incoming m)).2 fun f => ?_
  rw [h.linked.mem_incoming, hg.mem_incoming, h.flowCount, Arena.lt_succ_iff_next]
  constructor
  · rintro ⟨hf | rfl, ht⟩
    · rw [h.flow f hf] at ht
      exact ⟨hf, (hmove _).1 ht⟩
    · rw [h.connector] at ht
      exact absurd ht hconnector
  · rintro ⟨hf, ht⟩
    rw [h.flow f hf]
    exact ⟨.inl hf, (hmove _).2 ht⟩

theorem Rerouted.perm_outgoing (h : Rerouted g gateway connector move g') (hg : g.Linked)
    (hconnector : connector.source ≠ m) (hmove : ∀ x, (move x).source = m ↔ x.source = m) :
    (g'.node m).outgoing.Perm (g.node m).outgoing := by
  refine (List.perm_ext_iff_of_nodup (h.linked.nodup_outgoing m) (hg.nodup_outgoing m)).2 fun f => ?_
  rw [h.linked.mem_outgoing, hg.mem_outgoing, h.flowCount, Arena.lt_succ_iff_next]
  constructor
  · rintro ⟨hf | rfl, ht⟩
    · rw [h.flow f hf] at ht
      exact ⟨hf, (hmove _).1 ht⟩
    · rw [h.connector] at ht
      exact absurd ht hconnector
  · rintro ⟨hf, ht⟩
    rw [h.flow f hf]
    exact ⟨.inl hf, (hmove _).2 ht⟩

/-- Where all flows are led away, only the new one is left. -/
theorem Rerouted.incoming_le (h : Rerouted g gateway connector move g')
    (hmove : ∀ x, (move x).target ≠ m) : (g'.node m).incoming.length ≤ 1 := by
  have hsub : (g'.node m).incoming ⊆ [g.flows.next] := by
    intro f hf
    obtain ⟨hlt, ht⟩ := (h.linked.mem_incoming m f).1 hf
    rw [h.flowCount, Arena.lt_succ_iff_next] at hlt
    refine List.mem_singleton.2 (hlt.resolve_left fun hlt => hmove (g.flow f) ?_)
    rw [← h.flow f hlt, ht]
  exact (List.subperm_of_subset (h.linked.nodup_incoming m) hsub).length_le

theorem Rerouted.outgoing_le (h : Rerouted g gateway connector move g')
    (hmove : ∀ x, (move x).source ≠ m) : (g'.node m).outgoing.length ≤ 1 := by
  have hsub : (g'.node m).outgoing ⊆ [g.flows.next] := by
    intro f hf
    obtain ⟨hlt, ht⟩ := (h.linked.mem_outgoing m f).1 hf
    rw [h.flowCount, Arena.lt_succ_iff_next] at hlt
    refine List.mem_singleton.2 (hlt.resolve_left fun hlt => hmove (g.flow f) ?_)
    rw [← h.flow f hlt, ht]
  exact (List.subperm_of_subset (h.linked.nodup_outgoing m) hsub).length_le

end Rerouted

/-! ## The flows of the other nodes -/

section Perm

variable (hg : g.Linked) (hn : index n < g.nodes.size)
include hg hn

theorem perm_incoming_of_join (h : g.joinIncoming n = .ok g') (hm : index m < g.nodes.size)
    (hmn : m ≠ n) : (g'.node m).incoming.Perm (g.node m).incoming :=
  (rerouted_joinIncoming hg hn h).perm_incoming hg (Ne.symm hmn) fun _ =>
    target_leadInto_eq_iff hmn (Arena.ne_next_of_lt hm)

theorem perm_outgoing_of_join (h : g.joinIncoming n = .ok g') (hm : index m < g.nodes.size) :
    (g'.node m).outgoing.Perm (g.node m).outgoing :=
  (rerouted_joinIncoming hg hn h).perm_outgoing hg (Arena.ne_next_of_lt hm).symm fun x => by
    rw [source_leadInto]

theorem perm_incoming_of_split (h : g.splitOutgoing n = .ok g') (hm : index m < g.nodes.size) :
    (g'.node m).incoming.Perm (g.node m).incoming :=
  (rerouted_splitOutgoing hg hn h).perm_incoming hg (Arena.ne_next_of_lt hm).symm fun x => by
    rw [target_leadOutOf]

theorem perm_outgoing_of_split (h : g.splitOutgoing n = .ok g') (hm : index m < g.nodes.size)
    (hmn : m ≠ n) : (g'.node m).outgoing.Perm (g.node m).outgoing :=
  (rerouted_splitOutgoing hg hn h).perm_outgoing hg (Ne.symm hmn) fun _ =>
    source_leadOutOf_eq_iff hmn (Arena.ne_next_of_lt hm)

end Perm

/-! ## Graphs in gateway form -/

/-- A node has at most one flow on each side. -/
def Slim (g : ProcessGraph) (n : NodeId) : Prop :=
  (g.node n).incoming.length ≤ 1 ∧ (g.node n).outgoing.length ≤ 1

/-- What the gateways of one node `n` do to a graph. -/
structure Trimmed (g : ProcessGraph) (n : NodeId) (g' : ProcessGraph) : Prop where
  linked : g'.Linked
  distinct : g'.Distinct
  refines : Refines g g'
  incoming : ∀ m, index m < g.nodes.size → m ≠ n →
    (g'.node m).incoming.length = (g.node m).incoming.length
  outgoing : ∀ m, index m < g.nodes.size → m ≠ n →
    (g'.node m).outgoing.length = (g.node m).outgoing.length

theorem trimmed_joinIncoming (hg : g.Linked) (hd : g.Distinct) (hn : index n < g.nodes.size)
    (h : g.joinIncoming n = .ok g') :
    Trimmed g n g' ∧ (g'.node n).incoming.length ≤ 1 := by
  have hrerouted := rerouted_joinIncoming hg hn h
  have hfree : g.obstacle? (g.node n).id (joinGateway (g.node n)) = none := by
    rw [← error?_joinIncoming hg, h]
    rfl
  exact ⟨⟨hrerouted.linked, hrerouted.distinct hd (id_leadInto _ _) rfl hfree, refines_joinIncoming h,
    fun m hm hne => (perm_incoming_of_join hg hn h hm hne).length_eq,
    fun m hm _ => (perm_outgoing_of_join hg hn h hm).length_eq⟩,
    hrerouted.incoming_le fun _ => target_leadInto_ne (Arena.ne_next_of_lt hn)⟩

theorem trimmed_splitOutgoing (hg : g.Linked) (hd : g.Distinct) (hn : index n < g.nodes.size)
    (h : g.splitOutgoing n = .ok g') :
    Trimmed g n g' ∧ (g'.node n).outgoing.length ≤ 1 ∧
      (g'.node n).incoming.length = (g.node n).incoming.length := by
  have hrerouted := rerouted_splitOutgoing hg hn h
  have hfree : g.obstacle? (g.node n).id (splitGateway (g.node n)) = none := by
    rw [← error?_splitOutgoing hg, h]
    rfl
  exact ⟨⟨hrerouted.linked, hrerouted.distinct hd (id_leadOutOf _ _) rfl hfree, refines_splitOutgoing h,
    fun m hm _ => (perm_incoming_of_split hg hn h hm).length_eq,
    fun m hm hne => (perm_outgoing_of_split hg hn h hm hne).length_eq⟩,
    hrerouted.outgoing_le fun _ => source_leadOutOf_ne (Arena.ne_next_of_lt hn),
    (perm_incoming_of_split hg hn h hn).length_eq⟩

theorem Trimmed.refl (hg : g.Linked) (hd : g.Distinct) (n : NodeId) : Trimmed g n g :=
  ⟨hg, hd, .refl g, fun _ _ _ => rfl, fun _ _ _ => rfl⟩

theorem Trimmed.trans {g'' : ProcessGraph} (h : Trimmed g n g') (k : Trimmed g' n g'') :
    Trimmed g n g'' := by
  have hlt : ∀ m : NodeId, index m < g.nodes.size → index m < g'.nodes.size :=
    fun m hm => Nat.lt_of_lt_of_le hm h.refines.size
  exact ⟨k.linked, k.distinct, h.refines.trans k.refines,
    fun m hm hne => (k.incoming m (hlt m hm) hne).trans (h.incoming m hm hne),
    fun m hm hne => (k.outgoing m (hlt m hm) hne).trans (h.outgoing m hm hne)⟩

theorem trimmed_normalizeNode (hg : g.Linked) (hd : g.Distinct) (hn : index n < g.nodes.size)
    (h : g.normalizeNode n = .ok g') :
    Trimmed g n g' ∧ ((g.node n).kind.isGateway = false → g'.Slim n) := by
  rcases normalizeNode_eq_ok h with ⟨hkind, rfl⟩ | ⟨hkind, g₁, hfirst, hsecond⟩
  · exact ⟨.refl hg hd n, fun h => absurd hkind (h ▸ Bool.false_ne_true)⟩
  have h₁ : Trimmed g n g₁ ∧ (g₁.node n).incoming.length ≤ 1 := by
    rcases hfirst with ⟨hlen, rfl⟩ | ⟨_, hfirst⟩
    · exact ⟨.refl hg hd n, hlen⟩
    · exact trimmed_joinIncoming hg hd hn hfirst
  obtain ⟨h₁, hin⟩ := h₁
  rcases hsecond with ⟨hlen, rfl⟩ | ⟨_, hsecond⟩
  · exact ⟨h₁, fun _ => ⟨hin, hlen⟩⟩
  · obtain ⟨h₂, hout, hsame⟩ := trimmed_splitOutgoing h₁.linked h₁.distinct
      (Nat.lt_of_lt_of_le hn h₁.refines.size) hsecond
    exact ⟨h₁.trans h₂, fun _ => ⟨hsame ▸ hin, hout⟩⟩

theorem inGatewayForm_iff : g.InGatewayForm ↔ ∀ n, (g.node n).kind.isGateway = false → g.Slim n := by
  constructor
  · intro h n hkind
    by_cases hn : index n < g.nodes.size
    · refine h _ ?_ hkind
      rw [node, Arena.get?, List.getElem?_eq_getElem hn]
      exact List.getElem_mem hn
    · rw [Slim, node_eq_default (Nat.le_of_not_lt hn)]
      exact ⟨Nat.zero_le _, Nat.zero_le _⟩
  · intro h x hx hkind
    obtain ⟨k, hk, rfl⟩ := List.mem_iff_getElem.1 hx
    exact node_mk hk ▸ h ⟨k⟩ (node_mk hk ▸ hkind)

/-- A graph in gateway form, with its flows listed at their ends. -/
structure Normal (g : ProcessGraph) : Prop where
  linked : g.Linked
  distinct : g.Distinct
  form : g.InGatewayForm

theorem slim_foldl_normalizeNode {l : List NodeId} (hg : g.Linked) (hd : g.Distinct)
    (hl : ∀ n ∈ l, index n < g.nodes.size)
    (hrest : ∀ n, index n < g.nodes.size → n ∉ l → (g.node n).kind.isGateway = false → g.Slim n)
    (h : l.foldlM normalizeNode g = .ok g') : g'.Normal := by
  induction l generalizing g with
  | nil =>
    cases h
    refine ⟨hg, hd, inGatewayForm_iff.2 fun n hkind => ?_⟩
    by_cases hn : index n < g'.nodes.size
    · exact hrest n hn List.not_mem_nil hkind
    · rw [Slim, node_eq_default (Nat.le_of_not_lt hn)]
      exact ⟨Nat.zero_le _, Nat.zero_le _⟩
  | cons n l ih =>
    rw [List.foldlM_cons] at h
    cases hstep : g.normalizeNode n with
    | error e => rw [hstep] at h; cases h
    | ok g₁ =>
      rw [hstep] at h
      have hn := hl n List.mem_cons_self
      obtain ⟨htrim, hslim⟩ := trimmed_normalizeNode hg hd hn hstep
      refine ih htrim.linked htrim.distinct (fun m hm =>
        Nat.lt_of_lt_of_le (hl m (List.mem_cons_of_mem _ hm)) htrim.refines.size) ?_ h
      intro m hm hml hkind
      by_cases hold : index m < g.nodes.size
      · have hsame : (g₁.node m).kind = (g.node m).kind :=
          congrArg (·.kind) (htrim.refines.node m hold)
        by_cases hmn : m = n
        · exact hmn ▸ hslim (hmn ▸ hsame ▸ hkind)
        · rw [Slim, htrim.incoming m hold hmn, htrim.outgoing m hold hmn]
          refine hrest m hold (fun hmem => ?_) (hsame ▸ hkind)
          rcases List.mem_cons.1 hmem with he | hmem
          · exact hmn he
          · exact hml hmem
      · obtain ⟨d, hd'⟩ := htrim.refines.gateway m (Nat.le_of_not_lt hold) hm
        rw [hd'] at hkind
        cases hkind

/-- What comes out of `normalize` is in gateway form. -/
theorem normal_normalize (hg : g.Linked) (hd : g.Distinct) (h : g.normalize = .ok g') : g'.Normal :=
  slim_foldl_normalizeNode hg hd (fun _ => mem_sortedNodes.1)
    (fun _ hn hmem => absurd (mem_sortedNodes.2 hn) hmem) h

/-- What `joinIncoming` and `splitOutgoing` keep, `normalize` keeps. -/
theorem keeps_normalize {P : ProcessGraph → Prop}
    (hjoin : ∀ g g' n, g.Linked → index n < g.nodes.size → (g.node n).kind.isGateway = false →
      1 < (g.node n).incoming.length → P g → g.joinIncoming n = .ok g' → P g')
    (hsplit : ∀ g g' n, g.Linked → index n < g.nodes.size → (g.node n).kind.isGateway = false →
      1 < (g.node n).outgoing.length → P g → g.splitOutgoing n = .ok g' → P g')
    (hg : g.Linked) (hd : g.Distinct) (hP : P g) (h : g.normalize = .ok g') : P g' := by
  refine (rel_normalize (R := fun g g' =>
    g.Linked ∧ g.Distinct ∧ P g → g'.Linked ∧ g'.Distinct ∧ P g') (fun _ => id)
    (fun _ _ _ h k hg => k (h hg)) ?_ ?_ h ⟨hg, hd, hP⟩).2.2
  · rintro g n g' hn hkind hlen h ⟨hg, hd, hP⟩
    have htrim := (trimmed_joinIncoming hg hd hn h).1
    exact ⟨htrim.linked, htrim.distinct, hjoin g g' n hg hn hkind hlen hP h⟩
  · rintro g n g' hn hkind hlen h ⟨hg, hd, hP⟩
    have htrim := (trimmed_splitOutgoing hg hd hn h).1
    exact ⟨htrim.linked, htrim.distinct, hsplit g g' n hg hn hkind hlen hP h⟩

end ProcessNet.ProcessGraph
