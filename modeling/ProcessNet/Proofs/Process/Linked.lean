/-
Graphs whose flows are listed at their ends. In such a graph the lists of flows at the nodes say
nothing that the flows do not say themselves, and every way to bend a graph keeps it that way.
-/
import Mathlib.Data.List.Nodup
import ProcessNet.Proofs.Process.GatewayForm

namespace ProcessNet.ProcessGraph

open Identifier

/-- Flows are listed at the nodes of their two ends, each of them once, and nowhere else. -/
structure Linked (g : ProcessGraph) : Prop where
  source : ∀ f, index f < g.flows.size → index (g.flow f).source < g.nodes.size
  target : ∀ f, index f < g.flows.size → index (g.flow f).target < g.nodes.size
  mem_incoming : ∀ n f, f ∈ (g.node n).incoming ↔ index f < g.flows.size ∧ (g.flow f).target = n
  mem_outgoing : ∀ n f, f ∈ (g.node n).outgoing ↔ index f < g.flows.size ∧ (g.flow f).source = n
  nodup_incoming : ∀ n, (g.node n).incoming.Nodup
  nodup_outgoing : ∀ n, (g.node n).outgoing.Nodup

/-- No two nodes and no two flows have the same id, and no node has that of the process. -/
structure Distinct (g : ProcessGraph) : Prop where
  node : ∀ n m, index n < g.nodes.size → index m < g.nodes.size →
    (g.node n).id = (g.node m).id → n = m
  flow : ∀ f k, index f < g.flows.size → index k < g.flows.size →
    (g.flow f).id = (g.flow k).id → f = k

variable {g g' : ProcessGraph} {f k : FlowId} {n m t : NodeId}

/-- Where ids are distinct, flows come in a strict order of them. -/
theorem Distinct.pairwise_sortedFlows (hd : g.Distinct) :
    g.sortedFlows.Pairwise fun f k => (g.flow f).id < (g.flow k).id := by
  have hsorted := pairwise_sorted g.flows (·.id) default
  refine (hsorted.and (nodup_sortedFlows g)).imp_of_mem fun {f k} hf hk hle => ?_
  refine String.not_le.1 fun hge => hle.2 ?_
  exact hd.flow f k (mem_sortedFlows.1 hf) (mem_sortedFlows.1 hk) (String.le_antisymm hle.1 hge)

theorem node_mk {i : Nat} (hi : i < g.nodes.items.length) : g.node ⟨i⟩ = g.nodes.items[i] := by
  change (g.nodes.items[i]?).getD default = _
  rw [List.getElem?_eq_getElem hi]
  rfl

theorem flow_mk {i : Nat} (hi : i < g.flows.items.length) : g.flow ⟨i⟩ = g.flows.items[i] := by
  change (g.flows.items[i]?).getD default = _
  rw [List.getElem?_eq_getElem hi]
  rfl

theorem flow_eq_default (h : g.flows.size ≤ index f) : g.flow f = default := by
  rw [flow, Arena.get?_eq_none_of_le h]
  rfl

/-! ## One flow led elsewhere -/

theorem node_redirectTarget (hg : g.Linked) (hf : index f < g.flows.size)
    (ht : index t < g.nodes.size) (n : NodeId) :
    (g.redirectTarget f t).node n =
      { g.node n with
        incoming := (g.node n).incoming.filter (· ≠ f) ++ if n = t then [f] else [] } := by
  have hleave : ∀ n, (g.flow f).target ≠ n →
      (g.node n).incoming.filter (· ≠ f) = (g.node n).incoming := by
    intro n hne
    refine List.filter_eq_self.2 fun k hk => decide_eq_true ?_
    rintro rfl
    exact hne ((hg.mem_incoming n k).1 hk).2
  have ht' : index t < (g.nodes.modify (g.flow f).target fun x =>
      { x with incoming := x.incoming.filter (· ≠ f) }).size := by rwa [Arena.size_modify]
  simp only [node] at hleave
  simp only [redirectTarget, node]
  rw [getD_get?_modify ht', getD_get?_modify (hg.target f hf)]
  by_cases htn : t = n
  · by_cases hn : (g.flow f).target = n
    · simp [htn, hn]
    · rw [hleave n hn]
      simp [htn, hn]
  · by_cases hn : (g.flow f).target = n
    · simp [htn, hn, Ne.symm htn]
    · rw [hleave n hn]
      simp [htn, hn, Ne.symm htn]

@[simp]
theorem size_nodes_redirectTarget (f : FlowId) (t : NodeId) :
    (g.redirectTarget f t).nodes.size = g.nodes.size := by
  simp [redirectTarget]

@[simp]
theorem size_flows_redirectTarget (f : FlowId) (t : NodeId) :
    (g.redirectTarget f t).flows.size = g.flows.size := by
  simp [redirectTarget]

theorem flow_redirectTarget (hf : index f < g.flows.size) (t : NodeId) (k : FlowId) :
    (g.redirectTarget f t).flow k =
      if f = k then { g.flow k with target := t } else g.flow k := by
  simp only [redirectTarget, flow]
  rw [getD_get?_modify hf]

theorem Linked.redirectTarget (hg : g.Linked) (hf : index f < g.flows.size)
    (ht : index t < g.nodes.size) : (g.redirectTarget f t).Linked := by
  refine {
    source := fun k hk => ?source
    target := fun k hk => ?target
    mem_incoming := fun n k => ?mem_incoming
    mem_outgoing := fun n k => ?mem_outgoing
    nodup_incoming := fun n => ?nodup_incoming
    nodup_outgoing := fun n => ?nodup_outgoing }
  case source =>
    rw [size_nodes_redirectTarget, flow_redirectTarget hf]
    split <;> exact hg.source k (by simpa using hk)
  case target =>
    rw [size_nodes_redirectTarget, flow_redirectTarget hf]
    split
    · exact ht
    · exact hg.target k (by simpa using hk)
  case mem_incoming =>
    rw [node_redirectTarget hg hf ht, flow_redirectTarget hf, size_flows_redirectTarget, List.mem_append,
      List.mem_filter, hg.mem_incoming]
    by_cases hkf : f = k
    · subst hkf
      by_cases hnt : n = t
      · simp [hnt, hf]
      · simp [hnt, hf, Ne.symm hnt]
    · by_cases hnt : n = t
      · simp [hnt, hkf, Ne.symm hkf]
      · simp [hnt, hkf, Ne.symm hkf]
  case mem_outgoing =>
    rw [node_redirectTarget hg hf ht, flow_redirectTarget hf, size_flows_redirectTarget, hg.mem_outgoing]
    split <;> rfl
  case nodup_incoming =>
    rw [node_redirectTarget hg hf ht]
    refine List.nodup_append.2 ⟨(hg.nodup_incoming n).filter _, ?_, fun k hk j hj => ?_⟩
    · split <;> simp
    · split at hj
      · rintro rfl
        rw [List.mem_singleton] at hj
        exact of_decide_eq_true (List.mem_filter.1 hk).2 hj
      · cases hj
  case nodup_outgoing =>
    rw [node_redirectTarget hg hf ht]
    exact hg.nodup_outgoing n

theorem node_redirectSource (hg : g.Linked) (hf : index f < g.flows.size)
    (ht : index t < g.nodes.size) (n : NodeId) :
    (g.redirectSource f t).node n =
      { g.node n with
        outgoing := (g.node n).outgoing.filter (· ≠ f) ++ if n = t then [f] else [] } := by
  have hleave : ∀ n, (g.flow f).source ≠ n →
      (g.node n).outgoing.filter (· ≠ f) = (g.node n).outgoing := by
    intro n hne
    refine List.filter_eq_self.2 fun k hk => decide_eq_true ?_
    rintro rfl
    exact hne ((hg.mem_outgoing n k).1 hk).2
  have ht' : index t < (g.nodes.modify (g.flow f).source fun x =>
      { x with outgoing := x.outgoing.filter (· ≠ f) }).size := by rwa [Arena.size_modify]
  simp only [node] at hleave
  simp only [redirectSource, node]
  rw [getD_get?_modify ht', getD_get?_modify (hg.source f hf)]
  by_cases htn : t = n
  · by_cases hn : (g.flow f).source = n
    · simp [htn, hn]
    · rw [hleave n hn]
      simp [htn, hn]
  · by_cases hn : (g.flow f).source = n
    · simp [htn, hn, Ne.symm htn]
    · rw [hleave n hn]
      simp [htn, hn, Ne.symm htn]

@[simp]
theorem size_nodes_redirectSource (f : FlowId) (t : NodeId) :
    (g.redirectSource f t).nodes.size = g.nodes.size := by
  simp [redirectSource]

@[simp]
theorem size_flows_redirectSource (f : FlowId) (t : NodeId) :
    (g.redirectSource f t).flows.size = g.flows.size := by
  simp [redirectSource]

theorem flow_redirectSource (hf : index f < g.flows.size) (t : NodeId) (k : FlowId) :
    (g.redirectSource f t).flow k =
      if f = k then { g.flow k with source := t } else g.flow k := by
  simp only [redirectSource, flow]
  rw [getD_get?_modify hf]

theorem Linked.redirectSource (hg : g.Linked) (hf : index f < g.flows.size)
    (ht : index t < g.nodes.size) : (g.redirectSource f t).Linked := by
  refine {
    source := fun k hk => ?source
    target := fun k hk => ?target
    mem_incoming := fun n k => ?mem_incoming
    mem_outgoing := fun n k => ?mem_outgoing
    nodup_incoming := fun n => ?nodup_incoming
    nodup_outgoing := fun n => ?nodup_outgoing }
  case source =>
    rw [size_nodes_redirectSource, flow_redirectSource hf]
    split
    · exact ht
    · exact hg.source k (by simpa using hk)
  case target =>
    rw [size_nodes_redirectSource, flow_redirectSource hf]
    split <;> exact hg.target k (by simpa using hk)
  case mem_incoming =>
    rw [node_redirectSource hg hf ht, flow_redirectSource hf, size_flows_redirectSource, hg.mem_incoming]
    split <;> rfl
  case mem_outgoing =>
    rw [node_redirectSource hg hf ht, flow_redirectSource hf, size_flows_redirectSource, List.mem_append,
      List.mem_filter, hg.mem_outgoing]
    by_cases hkf : f = k
    · subst hkf
      by_cases hnt : n = t
      · simp [hnt, hf]
      · simp [hnt, hf, Ne.symm hnt]
    · by_cases hnt : n = t
      · simp [hnt, hkf, Ne.symm hkf]
      · simp [hnt, hkf, Ne.symm hkf]
  case nodup_incoming =>
    rw [node_redirectSource hg hf ht]
    exact hg.nodup_incoming n
  case nodup_outgoing =>
    rw [node_redirectSource hg hf ht]
    refine List.nodup_append.2 ⟨(hg.nodup_outgoing n).filter _, ?_, fun k hk j hj => ?_⟩
    · split <;> simp
    · split at hj
      · rintro rfl
        rw [List.mem_singleton] at hj
        exact of_decide_eq_true (List.mem_filter.1 hk).2 hj
      · cases hj

/-! ## Many flows led elsewhere -/

/-- `g'` is `g` with its flows changed by `move`. -/
structure Moved (g : ProcessGraph) (move : FlowId → Flow → Flow) (g' : ProcessGraph) : Prop where
  linked : g'.Linked
  processId : g'.processId = g.processId
  name : g'.name = g.name
  nodeCount : g'.nodes.size = g.nodes.size
  flowCount : g'.flows.size = g.flows.size
  bare : ∀ n, (g'.node n).bare = (g.node n).bare
  flow : ∀ f, g'.flow f = move f (g.flow f)

theorem moved_foldl_redirectTarget {l : List FlowId} (hg : g.Linked)
    (hl : ∀ f ∈ l, index f < g.flows.size) (ht : index t < g.nodes.size) :
    g.Moved (fun f x => if f ∈ l then { x with target := t } else x)
      (l.foldl (fun g f => g.redirectTarget f t) g) := by
  induction l generalizing g with
  | nil => exact ⟨hg, rfl, rfl, rfl, rfl, fun _ => rfl, fun _ => by simp⟩
  | cons f l ih =>
    have hf := hl f List.mem_cons_self
    have hrest := ih (hg.redirectTarget hf ht)
      (fun k hk => by simpa using hl k (List.mem_cons_of_mem _ hk)) (by simpa using ht)
    refine ⟨hrest.linked, hrest.processId, hrest.name, hrest.nodeCount.trans (by simp),
      hrest.flowCount.trans (by simp), fun n => ?_, fun k => ?_⟩
    · rw [List.foldl_cons, hrest.bare, node_redirectTarget hg hf ht]
      rfl
    · rw [List.foldl_cons, hrest.flow, flow_redirectTarget hf]
      by_cases hk : f = k
      · simp [hk]
      · by_cases hkl : k ∈ l
        · simp [hk, hkl]
        · simp [hk, hkl, Ne.symm hk]

theorem moved_foldl_redirectSource {l : List FlowId} (hg : g.Linked)
    (hl : ∀ f ∈ l, index f < g.flows.size) (ht : index t < g.nodes.size) :
    g.Moved (fun f x => if f ∈ l then { x with source := t } else x)
      (l.foldl (fun g f => g.redirectSource f t) g) := by
  induction l generalizing g with
  | nil => exact ⟨hg, rfl, rfl, rfl, rfl, fun _ => rfl, fun _ => by simp⟩
  | cons f l ih =>
    have hf := hl f List.mem_cons_self
    have hrest := ih (hg.redirectSource hf ht)
      (fun k hk => by simpa using hl k (List.mem_cons_of_mem _ hk)) (by simpa using ht)
    refine ⟨hrest.linked, hrest.processId, hrest.name, hrest.nodeCount.trans (by simp),
      hrest.flowCount.trans (by simp), fun n => ?_, fun k => ?_⟩
    · rw [List.foldl_cons, hrest.bare, node_redirectSource hg hf ht]
      rfl
    · rw [List.foldl_cons, hrest.flow, flow_redirectSource hf]
      by_cases hk : f = k
      · simp [hk]
      · by_cases hkl : k ∈ l
        · simp [hk, hkl]
        · simp [hk, hkl, Ne.symm hk]

/-! ## More nodes and flows -/

theorem node_push (x : Node) (n : NodeId) :
    ({ g with nodes := g.nodes.push x } : ProcessGraph).node n =
      if n = g.nodes.next then x else g.node n :=
  getD_get?_push

theorem node_next : g.node g.nodes.next = default :=
  node_eq_default (Nat.le_of_eq Arena.index_next.symm)

theorem Linked.push (hg : g.Linked) {x : Node} (hin : x.incoming = []) (hout : x.outgoing = []) :
    ({ g with nodes := g.nodes.push x } : ProcessGraph).Linked := by
  have hnode : ∀ n, (({ g with nodes := g.nodes.push x } : ProcessGraph).node n).incoming =
      (g.node n).incoming ∧ (({ g with nodes := g.nodes.push x } : ProcessGraph).node n).outgoing =
      (g.node n).outgoing := by
    intro n
    rw [node_push]
    split
    · rename_i hn
      rw [hn, node_next, hin, hout]
      exact ⟨rfl, rfl⟩
    · exact ⟨rfl, rfl⟩
  refine {
    source := fun f hf => ?source
    target := fun f hf => ?target
    mem_incoming := fun n f => ?mem_incoming
    mem_outgoing := fun n f => ?mem_outgoing
    nodup_incoming := fun n => ?nodup_incoming
    nodup_outgoing := fun n => ?nodup_outgoing }
  case source =>
    rw [Arena.size_push]
    exact Nat.lt_succ_of_lt (hg.source f hf)
  case target =>
    rw [Arena.size_push]
    exact Nat.lt_succ_of_lt (hg.target f hf)
  case mem_incoming =>
    rw [(hnode n).1]
    exact hg.mem_incoming n f
  case mem_outgoing =>
    rw [(hnode n).2]
    exact hg.mem_outgoing n f
  case nodup_incoming =>
    rw [(hnode n).1]
    exact hg.nodup_incoming n
  case nodup_outgoing =>
    rw [(hnode n).2]
    exact hg.nodup_outgoing n

/-- The graph with one more flow. -/
def withFlow (g : ProcessGraph) (x : Flow) : ProcessGraph :=
  { g with flows := g.flows.push x, nodes := attach g.nodes g.flows.next x.source x.target }

theorem insertFlow_eq_ok {x : Flow} (h : g.insertFlow x = .ok g') :
    (g.flowById? x.id).isSome = false ∧ g' = g.withFlow x := by
  unfold insertFlow at h
  split at h
  · cases h
  · rename_i hnew
    cases h
    exact ⟨by simpa using hnew, rfl⟩

theorem flow_withFlow (x : Flow) (f : FlowId) :
    (g.withFlow x).flow f = if f = g.flows.next then x else g.flow f :=
  getD_get?_push

@[simp] theorem size_nodes_withFlow (x : Flow) : (g.withFlow x).nodes.size = g.nodes.size := by
  simp [withFlow, attach]

@[simp] theorem size_flows_withFlow (x : Flow) : (g.withFlow x).flows.size = g.flows.size + 1 := by
  simp [withFlow]

theorem node_withFlow {x : Flow} (hs : index x.source < g.nodes.size)
    (ht : index x.target < g.nodes.size) (n : NodeId) :
    (g.withFlow x).node n =
      { g.node n with
        incoming := (g.node n).incoming ++ if n = x.target then [g.flows.next] else []
        outgoing := (g.node n).outgoing ++ if n = x.source then [g.flows.next] else [] } := by
  simp only [withFlow, attach, node]
  rw [getD_get?_modify (by rwa [Arena.size_modify]), getD_get?_modify hs]
  by_cases htn : x.target = n
  · by_cases hsn : x.source = n
    · simp [htn, hsn]
    · simp [htn, hsn, Ne.symm hsn]
  · by_cases hsn : x.source = n
    · simp [htn, hsn, Ne.symm htn]
    · simp [htn, hsn, Ne.symm htn, Ne.symm hsn]

theorem bare_withFlow {x : Flow} (hs : index x.source < g.nodes.size)
    (ht : index x.target < g.nodes.size) (n : NodeId) :
    ((g.withFlow x).node n).bare = (g.node n).bare := by
  rw [node_withFlow hs ht]
  rfl

/-- A flow with an id of its own leaves all ids distinct. -/
theorem Distinct.withFlow {x : Flow} (h : g.Distinct) (hs : index x.source < g.nodes.size)
    (ht : index x.target < g.nodes.size)
    (hnew : ∀ k, index k < g.flows.size → (g.flow k).id ≠ x.id) : (g.withFlow x).Distinct where
  node n m hn hm he := by
    rw [size_nodes_withFlow] at hn hm
    have hid : ∀ n, ((g.withFlow x).node n).id = (g.node n).id := fun n =>
      congrArg (·.id) (bare_withFlow hs ht n)
    rw [hid, hid] at he
    exact h.node n m hn hm he
  flow a b ha hb he := by
    rw [size_flows_withFlow, Arena.lt_succ_iff_next] at ha hb
    rw [flow_withFlow, flow_withFlow] at he
    rcases ha with ha | rfl
    · rw [if_neg (Arena.ne_next_of_lt ha)] at he
      rcases hb with hb | rfl
      · rw [if_neg (Arena.ne_next_of_lt hb)] at he
        exact h.flow a b ha hb he
      · rw [if_pos rfl] at he
        exact absurd he (hnew a ha)
    · rw [if_pos rfl] at he
      rcases hb with hb | rfl
      · rw [if_neg (Arena.ne_next_of_lt hb)] at he
        exact absurd he.symm (hnew b hb)
      · rfl

theorem Linked.withFlow (hg : g.Linked) {x : Flow} (hs : index x.source < g.nodes.size)
    (ht : index x.target < g.nodes.size) : (g.withFlow x).Linked := by
  -- the number of the new flow is in no list yet
  have hfresh : ∀ {l : List FlowId} {P : FlowId → Prop},
      (∀ f, f ∈ l ↔ index f < g.flows.size ∧ P f) → g.flows.next ∉ l := fun h hf =>
    Arena.ne_next_of_lt ((h _).1 hf).1 rfl
  refine {
    source := fun f hf => ?source
    target := fun f hf => ?target
    mem_incoming := fun n f => ?mem_incoming
    mem_outgoing := fun n f => ?mem_outgoing
    nodup_incoming := fun n => ?nodup_incoming
    nodup_outgoing := fun n => ?nodup_outgoing }
  case source =>
    rw [size_flows_withFlow, Arena.lt_succ_iff_next] at hf
    rw [size_nodes_withFlow, flow_withFlow]
    split
    · exact hs
    · rename_i hne
      exact hg.source f (hf.resolve_right hne)
  case target =>
    rw [size_flows_withFlow, Arena.lt_succ_iff_next] at hf
    rw [size_nodes_withFlow, flow_withFlow]
    split
    · exact ht
    · rename_i hne
      exact hg.target f (hf.resolve_right hne)
  case mem_incoming =>
    rw [node_withFlow hs ht, flow_withFlow, size_flows_withFlow, Arena.lt_succ_iff_next]
    by_cases hf : f = g.flows.next
    · subst hf
      by_cases hn : n = x.target
      · simp [hn]
      · simp [hn, Ne.symm hn, hfresh (hg.mem_incoming n)]
    · by_cases hn : n = x.target
      · simp [hn, hf, hg.mem_incoming]
      · simp [hn, hf, hg.mem_incoming]
  case mem_outgoing =>
    rw [node_withFlow hs ht, flow_withFlow, size_flows_withFlow, Arena.lt_succ_iff_next]
    by_cases hf : f = g.flows.next
    · subst hf
      by_cases hn : n = x.source
      · simp [hn]
      · simp [hn, Ne.symm hn, hfresh (hg.mem_outgoing n)]
    · by_cases hn : n = x.source
      · simp [hn, hf, hg.mem_outgoing]
      · simp [hn, hf, hg.mem_outgoing]
  case nodup_incoming =>
    rw [node_withFlow hs ht]
    refine List.nodup_append.2 ⟨hg.nodup_incoming n, by split <;> simp, fun k hk j hj => ?_⟩
    split at hj
    · rw [List.mem_singleton.1 hj]
      exact Arena.ne_next_of_lt ((hg.mem_incoming n k).1 hk).1
    · cases hj
  case nodup_outgoing =>
    rw [node_withFlow hs ht]
    refine List.nodup_append.2 ⟨hg.nodup_outgoing n, by split <;> simp, fun k hk j hj => ?_⟩
    split at hj
    · rw [List.mem_singleton.1 hj]
      exact Arena.ne_next_of_lt ((hg.mem_outgoing n k).1 hk).1
    · cases hj

end ProcessNet.ProcessGraph
