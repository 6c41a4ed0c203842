/-
The order of flows at their nodes. Where flows only come on top, or are all led to a new gateway, they
stand at each node in the order of their numbers. So the lists at the nodes can be told from the flows.
-/
import ProcessNet.Proofs.Process.Normal
import ProcessNet.Proofs.Process.WellFormed

namespace ProcessNet

open Identifier

namespace ProcessGraph

variable {g g' : ProcessGraph} {n t : NodeId} {l : List FlowId}

/-- Flows are listed at their ends in the order of their numbers. -/
structure Tidy (g : ProcessGraph) : Prop where
  linked : g.Linked
  incoming : ∀ n, Ascending (g.node n).incoming
  outgoing : ∀ n, Ascending (g.node n).outgoing

theorem eq_of_getD {ι α : Type} [Identifier ι] {a b : Arena ι α} {x : α} (hsize : a.size = b.size)
    (h : ∀ i, (a.get? i).getD x = (b.get? i).getD x) : a = b := by
  have hitems : a.items = b.items := by
    refine List.ext_getElem hsize fun i hi hj => ?_
    have hget := h (ofIndex i)
    simp only [Arena.get?, index_ofIndex] at hget
    rwa [List.getElem?_eq_getElem hi, List.getElem?_eq_getElem hj] at hget
  cases a
  cases b
  exact congrArg Arena.mk hitems

/-- The lists at the nodes say nothing that the flows do not say. -/
theorem Tidy.eq (hg : g.Tidy) (hg' : g'.Tidy) (hprocess : g'.processId = g.processId)
    (hname : g'.name = g.name) (hnodes : g'.nodes.size = g.nodes.size)
    (hflows : g'.flows.size = g.flows.size) (hbare : ∀ n, (g'.node n).bare = (g.node n).bare)
    (hflow : ∀ f, g'.flow f = g.flow f) : g' = g := by
  have hnode : ∀ n, g'.node n = g.node n := by
    intro n
    have hincoming : (g'.node n).incoming = (g.node n).incoming :=
      (hg'.incoming n).ext (hg.incoming n) fun f => by
        rw [hg'.linked.mem_incoming, hg.linked.mem_incoming, hflows, hflow]
    have houtgoing : (g'.node n).outgoing = (g.node n).outgoing :=
      (hg'.outgoing n).ext (hg.outgoing n) fun f => by
        rw [hg'.linked.mem_outgoing, hg.linked.mem_outgoing, hflows, hflow]
    have hwhole : ∀ x : Node, x = { x.bare with incoming := x.incoming, outgoing := x.outgoing } :=
      fun _ => rfl
    rw [hwhole (g'.node n), hbare, hincoming, houtgoing]
    rfl
  have hnodes : g'.nodes = g.nodes := eq_of_getD hnodes hnode
  have hflows : g'.flows = g.flows := eq_of_getD hflows hflow
  cases g
  cases g'
  simp only at hprocess hname hnodes hflows
  rw [hprocess, hname, hnodes, hflows]

/-! ## More nodes and flows -/

theorem ascending_append_next (hl : Ascending l) (hlt : ∀ f ∈ l, index f < g.flows.size) {p : Prop}
    [Decidable p] : Ascending (l ++ if p then [g.flows.next] else []) := by
  refine List.pairwise_append.2 ⟨hl, by split <;> simp, fun f hf k hk => ?_⟩
  split at hk
  · rw [List.mem_singleton.1 hk, Arena.index_next]
    exact hlt f hf
  · cases hk

theorem Tidy.withFlow (hg : g.Tidy) {x : Flow} (hs : index x.source < g.nodes.size)
    (ht : index x.target < g.nodes.size) : (g.withFlow x).Tidy := by
  refine ⟨hg.linked.withFlow hs ht, fun n => ?_, fun n => ?_⟩
  · rw [node_withFlow hs ht]
    exact ascending_append_next (hg.incoming n) fun f hf => ((hg.linked.mem_incoming n f).1 hf).1
  · rw [node_withFlow hs ht]
    exact ascending_append_next (hg.outgoing n) fun f hf => ((hg.linked.mem_outgoing n f).1 hf).1

theorem Tidy.push (hg : g.Tidy) {x : Node} (hx : x.bare = x) :
    ({ g with nodes := g.nodes.push x } : ProcessGraph).Tidy := by
  have hin : x.incoming = [] := congrArg (·.incoming) hx.symm
  have hout : x.outgoing = [] := congrArg (·.outgoing) hx.symm
  refine ⟨hg.linked.push hin hout, fun n => ?_, fun n => ?_⟩
  · rw [node_push]
    split
    · rw [hin]
      exact List.Pairwise.nil
    · exact hg.incoming n
  · rw [node_push]
    split
    · rw [hout]
      exact List.Pairwise.nil
    · exact hg.outgoing n

/-! ## Flows led to a gateway -/

theorem node_foldl_redirectTarget (hg : g.Linked) (hl : ∀ f ∈ l, index f < g.flows.size)
    (hnodup : l.Nodup) (ht : index t < g.nodes.size) (n : NodeId) :
    (l.foldl (fun g f => g.redirectTarget f t) g).node n =
      { g.node n with
        incoming := (g.node n).incoming.filter (· ∉ l) ++ if n = t then l else [] } := by
  induction l generalizing g with
  | nil => simp
  | cons f l ih =>
    have hf := hl f List.mem_cons_self
    obtain ⟨hfl, hnodup⟩ := List.nodup_cons.1 hnodup
    rw [List.foldl_cons, ih (hg.redirectTarget hf ht)
      (fun k hk => by simpa using hl k (List.mem_cons_of_mem _ hk)) hnodup (by simpa using ht),
      node_redirectTarget hg hf ht]
    by_cases hn : n = t
    · simp [hn, hfl, List.filter_filter, List.filter_append, Bool.and_comm]
    · simp [hn, List.filter_filter, Bool.and_comm]

theorem node_foldl_redirectSource (hg : g.Linked) (hl : ∀ f ∈ l, index f < g.flows.size)
    (hnodup : l.Nodup) (ht : index t < g.nodes.size) (n : NodeId) :
    (l.foldl (fun g f => g.redirectSource f t) g).node n =
      { g.node n with
        outgoing := (g.node n).outgoing.filter (· ∉ l) ++ if n = t then l else [] } := by
  induction l generalizing g with
  | nil => simp
  | cons f l ih =>
    have hf := hl f List.mem_cons_self
    obtain ⟨hfl, hnodup⟩ := List.nodup_cons.1 hnodup
    rw [List.foldl_cons, ih (hg.redirectSource hf ht)
      (fun k hk => by simpa using hl k (List.mem_cons_of_mem _ hk)) hnodup (by simpa using ht),
      node_redirectSource hg hf ht]
    by_cases hn : n = t
    · simp [hn, hfl, List.filter_filter, List.filter_append, Bool.and_comm]
    · simp [hn, List.filter_filter, Bool.and_comm]

/-- All flows into a node are led to one that had none, and a flow comes on top. -/
theorem Tidy.leadIncoming (hg : g.Tidy) (ht : index t < g.nodes.size)
    (hnone : (g.node t).incoming = []) {x : Flow} (hs : index x.source < g.nodes.size)
    (hx : index x.target < g.nodes.size) (n : NodeId) :
    (((g.node n).incoming.foldl (fun g f => g.redirectTarget f t) g).withFlow x).Tidy := by
  have hlt : ∀ f ∈ (g.node n).incoming, index f < g.flows.size := fun f hf =>
    ((hg.linked.mem_incoming n f).1 hf).1
  have hnode := node_foldl_redirectTarget hg.linked hlt (hg.incoming n).nodup ht
  have hmoved := moved_foldl_redirectTarget hg.linked hlt ht
  refine Tidy.withFlow ⟨hmoved.linked, fun m => ?_, fun m => ?_⟩ (hmoved.nodeCount.symm ▸ hs)
    (hmoved.nodeCount.symm ▸ hx)
  · rw [hnode]
    by_cases hm : m = t
    · simpa [hm, hnone] using hg.incoming n
    · simpa [hm] using (hg.incoming m).filter _
  · rw [hnode]
    exact hg.outgoing m

/-- All flows out of a node are led to one that had none, and a flow comes on top. -/
theorem Tidy.leadOutgoing (hg : g.Tidy) (ht : index t < g.nodes.size)
    (hnone : (g.node t).outgoing = []) {x : Flow} (hs : index x.source < g.nodes.size)
    (hx : index x.target < g.nodes.size) (n : NodeId) :
    (((g.node n).outgoing.foldl (fun g f => g.redirectSource f t) g).withFlow x).Tidy := by
  have hlt : ∀ f ∈ (g.node n).outgoing, index f < g.flows.size := fun f hf =>
    ((hg.linked.mem_outgoing n f).1 hf).1
  have hnode := node_foldl_redirectSource hg.linked hlt (hg.outgoing n).nodup ht
  have hmoved := moved_foldl_redirectSource hg.linked hlt ht
  refine Tidy.withFlow ⟨hmoved.linked, fun m => ?_, fun m => ?_⟩ (hmoved.nodeCount.symm ▸ hs)
    (hmoved.nodeCount.symm ▸ hx)
  · rw [hnode]
    exact hg.incoming m
  · rw [hnode]
    by_cases hm : m = t
    · simpa [hm, hnone] using hg.outgoing n
    · simpa [hm] using (hg.outgoing m).filter _

theorem Tidy.joinIncoming (hg : g.Tidy) (hn : index n < g.nodes.size)
    (h : g.joinIncoming n = .ok g') : g'.Tidy := by
  obtain ⟨g₁, gateway, hinsert, hconnect⟩ := joinIncoming_eq_ok h
  obtain ⟨rfl, rfl⟩ := insertGateway_eq_ok hinsert
  have hnext : index g.nodes.next < (g.nodes.push (joinGateway (g.node n))).size :=
    Arena.size_push.symm ▸ Arena.lt_succ_iff_next.2 (.inr rfl)
  have hlt : index n < (g.nodes.push (joinGateway (g.node n))).size :=
    Arena.size_push.symm ▸ Nat.lt_succ_of_lt hn
  rw [connect_eq] at hconnect
  split at hconnect
  · cases hconnect
  cases hconnect
  refine (hg.push (x := joinGateway (g.node n)) rfl).leadIncoming hnext ?_ hnext hlt n
  rw [node_push, if_pos rfl]
  rfl

theorem Tidy.splitOutgoing (hg : g.Tidy) (hn : index n < g.nodes.size)
    (h : g.splitOutgoing n = .ok g') : g'.Tidy := by
  obtain ⟨g₁, gateway, hinsert, hconnect⟩ := splitOutgoing_eq_ok h
  obtain ⟨rfl, rfl⟩ := insertGateway_eq_ok hinsert
  have hnext : index g.nodes.next < (g.nodes.push (splitGateway (g.node n))).size :=
    Arena.size_push.symm ▸ Arena.lt_succ_iff_next.2 (.inr rfl)
  have hlt : index n < (g.nodes.push (splitGateway (g.node n))).size :=
    Arena.size_push.symm ▸ Nat.lt_succ_of_lt hn
  rw [connect_eq] at hconnect
  split at hconnect
  · cases hconnect
  cases hconnect
  refine (hg.push (x := splitGateway (g.node n)) rfl).leadOutgoing hnext ?_ hlt hnext n
  rw [node_push, if_pos rfl]
  rfl

end ProcessGraph

namespace ProcessDeclaration

variable {d : ProcessDeclaration} {g g' : ProcessGraph}

theorem tidy_of_addFlows {fs : List FlowDeclaration} (hg : g.Tidy)
    (h : fs.foldlM d.addFlow g = .ok g') : g'.Tidy := by
  induction fs generalizing g with
  | nil =>
    cases h
    exact hg
  | cons f fs ih =>
    rw [List.foldlM_cons] at h
    cases hadd : d.addFlow g f with
    | error e => rw [hadd] at h; cases h
    | ok g₁ =>
      rw [hadd] at h
      obtain ⟨source, target, hsource, htarget, -, -, rfl⟩ := addFlow_eq_ok hadd
      exact ih (hg.withFlow (nodeById?_eq_some hsource).1 (nodeById?_eq_some htarget).1) h

theorem tidy_of_build (h : d.build = .ok g) : g.Tidy := by
  obtain ⟨hids, -, nodes, hplace, hflows⟩ := build_eq_ok_iff.1 h
  obtain ⟨hlen, hall⟩ := getElem?_of_mapM_eq_ok hplace
  have hd := declares_nodes (checkIds_eq_ok_iff.1 hids).1 hlen hall
  have hnone : ∀ f : FlowId, ¬ index f < 0 := fun f => Nat.not_lt_zero _
  refine tidy_of_addFlows ⟨hd.linked, fun n => ?_, fun n => ?_⟩ hflows
  · rw [List.eq_nil_iff_forall_not_mem.2 fun f hf => hnone f ((hd.linked.mem_incoming n f).1 hf).1]
    exact List.Pairwise.nil
  · rw [List.eq_nil_iff_forall_not_mem.2 fun f hf => hnone f ((hd.linked.mem_outgoing n f).1 hf).1]
    exact List.Pairwise.nil

end ProcessDeclaration

end ProcessNet
