/-
Graphs that differ only in how their nodes and flows are numbered. Lists in the order of the ids
correspond to each other number by number, and gateway form either fails for the same reason or leads
to graphs that again differ only in their numbers.
-/
import Mathlib.Logic.Equiv.Basic
import ProcessNet.Proofs.Process.Normal

namespace ProcessNet

open Identifier

/-- The flow with its ends renamed. -/
def Flow.renamed (σ : NodeId → NodeId) (x : Flow) : Flow :=
  { x with source := σ x.source, target := σ x.target }

namespace ProcessGraph

/-- The graph `h` is `g` with its nodes and flows renumbered. Numbers that are not in use stay. -/
structure Renames (σ : Equiv.Perm NodeId) (τ : Equiv.Perm FlowId) (g h : ProcessGraph) : Prop where
  processId : h.processId = g.processId
  name : h.name = g.name
  nodeCount : h.nodes.size = g.nodes.size
  flowCount : h.flows.size = g.flows.size
  newNode : ∀ n, g.nodes.size ≤ index n → σ n = n
  newFlow : ∀ f, g.flows.size ≤ index f → τ f = f
  node : ∀ n, (h.node (σ n)).bare = (g.node n).bare
  flow : ∀ f, index f < g.flows.size → h.flow (τ f) = (g.flow f).renamed σ

theorem lt_of_perm {ι : Type} [Identifier ι] {σ : Equiv.Perm ι} {k : Nat}
    (hσ : ∀ i, k ≤ index i → σ i = i) {i : ι} : index (σ i) < k ↔ index i < k := by
  rw [← not_iff_not, Nat.not_lt, Nat.not_lt]
  constructor
  · intro h
    have hi := σ.injective (hσ _ h)
    rwa [hi] at h
  · intro h
    rwa [hσ i h]

namespace Renames

variable {σ : Equiv.Perm NodeId} {τ : Equiv.Perm FlowId} {g h : ProcessGraph} {n m : NodeId}
  {f k : FlowId}

theorem node_lt (hr : Renames σ τ g h) : index (σ n) < h.nodes.size ↔ index n < g.nodes.size := by
  rw [hr.nodeCount, lt_of_perm hr.newNode]

theorem flow_lt (hr : Renames σ τ g h) : index (τ f) < h.flows.size ↔ index f < g.flows.size := by
  rw [hr.flowCount, lt_of_perm hr.newFlow]

theorem node_id (hr : Renames σ τ g h) (n : NodeId) : (h.node (σ n)).id = (g.node n).id :=
  congrArg (·.id) (hr.node n)

theorem node_kind (hr : Renames σ τ g h) (n : NodeId) : (h.node (σ n)).kind = (g.node n).kind :=
  congrArg (·.kind) (hr.node n)

theorem node_process (hr : Renames σ τ g h) (n : NodeId) :
    (h.node (σ n)).process = (g.node n).process :=
  congrArg (·.process) (hr.node n)

theorem flow_id (hr : Renames σ τ g h) (hf : index f < g.flows.size) :
    (h.flow (τ f)).id = (g.flow f).id := by
  rw [hr.flow f hf]
  rfl

/-! ## Lists in the order of the ids -/

/-- Lists of the same members in the order of the ids are equal. -/
theorem eq_of_sorted {ι : Type} {l l' : List ι} (id : ι → String) (hperm : l.Perm l')
    (hl : l.Pairwise fun i j => id i ≤ id j) (hl' : l'.Pairwise fun i j => id i ≤ id j)
    (hid : ∀ i ∈ l, ∀ j ∈ l, id i = id j → i = j) : l = l' :=
  List.Perm.eq_of_pairwise
    (fun i j hi hj hij hji => hid i hi j (hperm.mem_iff.2 hj) (String.le_antisymm hij hji))
    hl hl' hperm

theorem sortedNodes_eq (hr : Renames σ τ g h) (hd : h.Distinct) :
    h.sortedNodes = g.sortedNodes.map σ := by
  have hmem : ∀ m, m ∈ h.sortedNodes ↔ m ∈ g.sortedNodes.map σ := by
    intro m
    obtain ⟨n, rfl⟩ := σ.surjective m
    rw [List.mem_map_of_injective σ.injective, mem_sortedNodes, mem_sortedNodes, hr.node_lt]
  have hperm : h.sortedNodes.Perm (g.sortedNodes.map σ) :=
    (List.perm_ext_iff_of_nodup (nodup_sortedNodes h) ((nodup_sortedNodes g).map σ.injective)).2 hmem
  refine eq_of_sorted (fun n => (h.node n).id) hperm
    (pairwise_sorted h.nodes (·.id) default) ?_ fun n hn m hm => ?_
  · rw [List.pairwise_map]
    refine (pairwise_sorted g.nodes (·.id) default).imp fun {i j} hle => ?_
    rw [hr.node_id, hr.node_id]
    exact hle
  · exact hd.node n m (mem_sortedNodes.1 hn) (mem_sortedNodes.1 hm)

theorem sortedFlows_eq (hr : Renames σ τ g h) (hd : h.Distinct) :
    h.sortedFlows = g.sortedFlows.map τ := by
  have hmem : ∀ m, m ∈ h.sortedFlows ↔ m ∈ g.sortedFlows.map τ := by
    intro m
    obtain ⟨n, rfl⟩ := τ.surjective m
    rw [List.mem_map_of_injective τ.injective, mem_sortedFlows, mem_sortedFlows, hr.flow_lt]
  have hperm : h.sortedFlows.Perm (g.sortedFlows.map τ) :=
    (List.perm_ext_iff_of_nodup (nodup_sortedFlows h) ((nodup_sortedFlows g).map τ.injective)).2 hmem
  refine eq_of_sorted (fun f => (h.flow f).id) hperm
    (pairwise_sorted h.flows (·.id) default) ?_ fun n hn m hm => ?_
  · rw [List.pairwise_map]
    refine (pairwise_sorted g.flows (·.id) default).imp_of_mem fun {i j} hi hj hle => ?_
    rw [hr.flow_id (mem_sortedFlows.1 hi), hr.flow_id (mem_sortedFlows.1 hj)]
    exact hle
  · exact hd.flow n m (mem_sortedFlows.1 hn) (mem_sortedFlows.1 hm)

theorem select_eq (hr : Renames σ τ g h) (hd : h.Distinct) {keep : Node → Bool}
    (hkeep : ∀ x, keep x = keep x.bare) : h.select keep = (g.select keep).map σ := by
  rw [select, select, hr.sortedNodes_eq hd, List.filter_map]
  congr 1
  refine List.filter_congr fun n _ => ?_
  rw [Function.comp, hkeep, hr.node, ← hkeep]

theorem subprocessesInnermostFirst_eq (hr : Renames σ τ g h) (hd : h.Distinct) :
    h.subprocessesInnermostFirst = g.subprocessesInnermostFirst.map σ := by
  rw [subprocessesInnermostFirst, subprocessesInnermostFirst, subprocesses, subprocesses,
    hr.select_eq hd fun _ => rfl]
  refine (List.map_mergeSort fun n _ m _ => ?_).symm
  rw [depth, depth, depth, depth, hr.node_kind, hr.node_kind]

/-! ## Flows at a node -/

theorem perm_incoming (hr : Renames σ τ g h) (hg : g.Linked) (hh : h.Linked) (n : NodeId) :
    ((g.node n).incoming.map τ).Perm (h.node (σ n)).incoming := by
  refine (List.perm_ext_iff_of_nodup ((hg.nodup_incoming n).map τ.injective)
    (hh.nodup_incoming (σ n))).2 fun k => ?_
  obtain ⟨f, rfl⟩ := τ.surjective k
  rw [List.mem_map_of_injective τ.injective, hg.mem_incoming, hh.mem_incoming, hr.flow_lt]
  refine and_congr_right fun hf => ?_
  rw [hr.flow f hf, Flow.renamed, EmbeddingLike.apply_eq_iff_eq]

theorem perm_outgoing (hr : Renames σ τ g h) (hg : g.Linked) (hh : h.Linked) (n : NodeId) :
    ((g.node n).outgoing.map τ).Perm (h.node (σ n)).outgoing := by
  refine (List.perm_ext_iff_of_nodup ((hg.nodup_outgoing n).map τ.injective)
    (hh.nodup_outgoing (σ n))).2 fun k => ?_
  obtain ⟨f, rfl⟩ := τ.surjective k
  rw [List.mem_map_of_injective τ.injective, hg.mem_outgoing, hh.mem_outgoing, hr.flow_lt]
  refine and_congr_right fun hf => ?_
  rw [hr.flow f hf, Flow.renamed, EmbeddingLike.apply_eq_iff_eq]

theorem length_incoming (hr : Renames σ τ g h) (hg : g.Linked) (hh : h.Linked) (n : NodeId) :
    (h.node (σ n)).incoming.length = (g.node n).incoming.length := by
  rw [← (hr.perm_incoming hg hh n).length_eq, List.length_map]

theorem length_outgoing (hr : Renames σ τ g h) (hg : g.Linked) (hh : h.Linked) (n : NodeId) :
    (h.node (σ n)).outgoing.length = (g.node n).outgoing.length := by
  rw [← (hr.perm_outgoing hg hh n).length_eq, List.length_map]

theorem eq_of_perm_of_length_le_one {α : Type} {l l' : List α} (h : l.Perm l')
    (hle : l.length ≤ 1) : l' = l := by
  match l, hle with
  | [], _ => exact h.symm.eq_nil
  | [x], _ => exact List.perm_singleton.1 h.symm

/-- `mergeSort` puts the flows at a node in the order of their ids. -/
theorem mergeSort_eq (hr : Renames σ τ g h) (hd : h.Distinct) {l l' : List FlowId}
    (hperm : (l.map τ).Perm l') (hl : ∀ f ∈ l, index f < g.flows.size) :
    (l'.mergeSort fun f k => decide ((h.flow f).id ≤ (h.flow k).id)) =
      (l.mergeSort fun f k => decide ((g.flow f).id ≤ (g.flow k).id)).map τ := by
  have hsorted : ∀ (g : ProcessGraph) (l : List FlowId),
      (l.mergeSort fun f k => decide ((g.flow f).id ≤ (g.flow k).id)).Pairwise
        fun f k => (g.flow f).id ≤ (g.flow k).id := by
    intro g l
    refine (List.pairwise_mergeSort (fun f k j hfk hkj => ?_) (fun f k => ?_) l).imp
      fun {f k} hle => of_decide_eq_true hle
    · exact decide_eq_true (String.le_trans (of_decide_eq_true hfk) (of_decide_eq_true hkj))
    · simpa using String.le_total (g.flow f).id (g.flow k).id
  have hlt : ∀ f ∈ l.map τ, index f < h.flows.size := by
    intro f hf
    obtain ⟨k, hk, rfl⟩ := List.mem_map.1 hf
    exact hr.flow_lt.2 (hl k hk)
  have hall : ((l.mergeSort fun f k => decide ((g.flow f).id ≤ (g.flow k).id)).map τ).Perm
      (l'.mergeSort fun f k => decide ((h.flow f).id ≤ (h.flow k).id)) :=
    ((List.mergeSort_perm _ _).map τ).trans (hperm.trans (List.mergeSort_perm _ _).symm)
  refine (eq_of_sorted (fun f => (h.flow f).id) hall ?_ (hsorted h l')
    fun f hf k hk => ?_).symm
  · rw [List.pairwise_map]
    refine (hsorted g l).imp_of_mem fun {f k} hf hk hle => ?_
    rw [hr.flow_id (hl f (List.mem_mergeSort.1 hf)), hr.flow_id (hl k (List.mem_mergeSort.1 hk))]
    exact hle
  · have hmem := (List.mergeSort_perm l fun f k => decide ((g.flow f).id ≤ (g.flow k).id)).map τ
    exact hd.flow f k (hlt f (hmem.mem_iff.1 hf)) (hlt k (hmem.mem_iff.1 hk))

/-! ## Gateway form -/

theorem next_eq {ι α : Type} [Identifier ι] {a b : Arena ι α} (h : b.size = a.size) :
    b.next = a.next :=
  congrArg ofIndex h

theorem obstacle?_eq (hr : Renames σ τ g h) (owner : String) (gateway : Node) :
    h.obstacle? owner gateway = g.obstacle? owner gateway := by
  have hnode : ∀ id, (h.nodeById? id).isSome = (g.nodeById? id).isSome := by
    intro id
    rw [Bool.eq_iff_iff, isSome_nodeById?_iff, isSome_nodeById?_iff, σ.surjective.exists]
    simp only [hr.node_lt, hr.node_id]
  have hflow : ∀ id, (h.flowById? id).isSome = (g.flowById? id).isSome := by
    intro id
    rw [Bool.eq_iff_iff, isSome_flowById?_iff, isSome_flowById?_iff, τ.surjective.exists]
    refine exists_congr fun f => ?_
    rw [hr.flow_lt]
    refine and_congr_right fun hf => ?_
    rw [hr.flow_id hf]
  rw [obstacle?, obstacle?, hnode, hflow, hr.processId]

/-- Gateways that correspond to each other leave graphs that do. -/
theorem rerouted (hr : Renames σ τ g h) {gateway : Node} {x y : Flow} {move move' : Flow → Flow}
    {g' h' : ProcessGraph} (hg' : Rerouted g gateway x move g') (hh' : Rerouted h gateway y move' h')
    (hxy : y = x.renamed σ) (hmove : ∀ z, move' (z.renamed σ) = (move z).renamed σ) :
    Renames σ τ g' h' := by
  have hnodes : h.nodes.next = g.nodes.next := next_eq hr.nodeCount
  have hflows : h.flows.next = g.flows.next := next_eq hr.flowCount
  have hle : ∀ {ι : Type} [Identifier ι] {k : Nat} {i : ι}, k + 1 ≤ index i → k ≤ index i :=
    fun h => Nat.le_of_succ_le h
  have hnode : σ g.nodes.next = g.nodes.next :=
    hr.newNode _ (Nat.le_of_eq Arena.index_next.symm)
  have hflow : τ g.flows.next = g.flows.next :=
    hr.newFlow _ (Nat.le_of_eq Arena.index_next.symm)
  refine {
    processId := ?processId
    name := ?name
    nodeCount := ?nodeCount
    flowCount := ?flowCount
    newNode := fun n hn => ?newNode
    newFlow := fun f hf => ?newFlow
    node := fun n => ?node
    flow := fun f hf => ?flow }
  case processId =>
    rw [hh'.processId, hr.processId, hg'.processId]
  case name =>
    rw [hh'.name, hr.name, hg'.name]
  case nodeCount =>
    rw [hh'.nodeCount, hr.nodeCount, hg'.nodeCount]
  case flowCount =>
    rw [hh'.flowCount, hr.flowCount, hg'.flowCount]
  case newNode =>
    exact hr.newNode n (hle (hg'.nodeCount ▸ hn))
  case newFlow =>
    exact hr.newFlow f (hle (hg'.flowCount ▸ hf))
  case node =>
    rw [hh'.bare, hg'.bare, hnodes, hr.node]
    by_cases hn : n = g.nodes.next
    · rw [if_pos hn, if_pos (hn ▸ hnode)]
    · rw [if_neg hn, if_neg fun he => hn (σ.injective (he.trans hnode.symm))]
  case flow =>
    rw [hg'.flowCount, Arena.lt_succ_iff_next] at hf
    rcases hf with hf | rfl
    · rw [hh'.flow _ (hr.flow_lt.2 hf), hg'.flow f hf, hr.flow f hf, hmove]
    · rw [hflow, ← hflows, hh'.connector, hflows, hg'.connector, hxy]

end Renames

/-- Two operations that fail for the same reason, or answer what is related. -/
inductive Both {ε α β : Type} (R : α → β → Prop) : Except ε α → Except ε β → Prop
  | ok {a : α} {b : β} : R a b → Both R (.ok a) (.ok b)
  | error (e : ε) : Both R (.error e) (.error e)

theorem Both.bind {ε α β α' β' : Type} {R : α → β → Prop} {S : α' → β' → Prop} {r : Except ε α}
    {r' : Except ε β} {k : α → Except ε α'} {k' : β → Except ε β'} (h : Both R r r')
    (hk : ∀ a b, R a b → Both S (k a) (k' b)) : Both S (r >>= k) (r' >>= k') := by
  cases h with
  | ok hab => exact hk _ _ hab
  | error e => exact .error e

theorem Both.imp {ε α β : Type} {R S : α → β → Prop} {r : Except ε α} {r' : Except ε β}
    (h : Both R r r') (hRS : ∀ a b, R a b → S a b) : Both S r r' := by
  cases h with
  | ok hab => exact .ok (hRS _ _ hab)
  | error e => exact .error e

theorem both_of_error? {ε α β : Type} {R : α → β → Prop} {r : Except ε α} {r' : Except ε β}
    (he : error? r = error? r') (hok : ∀ a b, r = .ok a → r' = .ok b → R a b) : Both R r r' := by
  cases r with
  | ok a =>
    cases r' with
    | ok b => exact .ok (hok a b rfl rfl)
    | error e => cases he
  | error e =>
    cases r' with
    | ok b => cases he
    | error e' =>
      cases he
      exact .error e

/-- Graphs that differ only in their numbers, both with distinct ids and with their flows listed at
their ends. -/
structure Matches (σ : Equiv.Perm NodeId) (τ : Equiv.Perm FlowId) (g h : ProcessGraph) : Prop where
  renames : Renames σ τ g h
  linked : g.Linked
  linked' : h.Linked
  distinct : g.Distinct
  distinct' : h.Distinct

namespace Matches

variable {σ : Equiv.Perm NodeId} {τ : Equiv.Perm FlowId} {g h g' h' : ProcessGraph} {n : NodeId}

theorem joinIncoming (hm : Matches σ τ g h) (hn : index n < g.nodes.size) :
    Both (fun g' h' => Matches σ τ g' h' ∧ g.nodes.size ≤ g'.nodes.size) (g.joinIncoming n)
      (h.joinIncoming (σ n)) := by
  have hr := hm.renames
  have hgateway : joinGateway (h.node (σ n)) = joinGateway (g.node n) := by
    rw [joinGateway, joinGateway, hr.node_id, hr.node_process]
  refine both_of_error? ?_ fun g' h' hg' hh' => ?_
  · rw [error?_joinIncoming hm.linked, error?_joinIncoming hm.linked', hgateway, hr.node_id,
      hr.obstacle?_eq]
  · have hn' := hr.node_lt.2 hn
    have htrim := (trimmed_joinIncoming hm.linked hm.distinct hn hg').1
    have htrim' := (trimmed_joinIncoming hm.linked' hm.distinct' hn' hh').1
    have hnext := Renames.next_eq hr.nodeCount
    have hfix : σ g.nodes.next = g.nodes.next :=
      hr.newNode _ (Nat.le_of_eq Arena.index_next.symm)
    refine ⟨⟨?_, htrim.linked, htrim'.linked, htrim.distinct, htrim'.distinct⟩, htrim.refines.size⟩
    refine hr.rerouted (rerouted_joinIncoming hm.linked hn hg')
      (hgateway ▸ rerouted_joinIncoming hm.linked' hn' hh') ?_ fun x => ?_
    · simp only [connectorFlow, Flow.renamed, hnext, hfix]
    · simp only [leadInto, Flow.renamed, EmbeddingLike.apply_eq_iff_eq, hnext]
      split
      · simp only [hfix]
      · rfl

theorem splitOutgoing (hm : Matches σ τ g h) (hn : index n < g.nodes.size) :
    Both (fun g' h' => Matches σ τ g' h' ∧ g.nodes.size ≤ g'.nodes.size) (g.splitOutgoing n)
      (h.splitOutgoing (σ n)) := by
  have hr := hm.renames
  have hgateway : splitGateway (h.node (σ n)) = splitGateway (g.node n) := by
    rw [splitGateway, splitGateway, hr.node_id, hr.node_process]
  refine both_of_error? ?_ fun g' h' hg' hh' => ?_
  · rw [error?_splitOutgoing hm.linked, error?_splitOutgoing hm.linked', hgateway, hr.node_id,
      hr.obstacle?_eq]
  · have hn' := hr.node_lt.2 hn
    have htrim := (trimmed_splitOutgoing hm.linked hm.distinct hn hg').1
    have htrim' := (trimmed_splitOutgoing hm.linked' hm.distinct' hn' hh').1
    have hnext := Renames.next_eq hr.nodeCount
    have hfix : σ g.nodes.next = g.nodes.next :=
      hr.newNode _ (Nat.le_of_eq Arena.index_next.symm)
    refine ⟨⟨?_, htrim.linked, htrim'.linked, htrim.distinct, htrim'.distinct⟩, htrim.refines.size⟩
    refine hr.rerouted (rerouted_splitOutgoing hm.linked hn hg')
      (hgateway ▸ rerouted_splitOutgoing hm.linked' hn' hh') ?_ fun x => ?_
    · simp only [connectorFlow, Flow.renamed, hnext, hfix]
    · simp only [leadOutOf, Flow.renamed, EmbeddingLike.apply_eq_iff_eq, hnext]
      split
      · simp only [hfix]
      · rfl

theorem normalizeNode (hm : Matches σ τ g h) (hn : index n < g.nodes.size) :
    Both (fun g' h' => Matches σ τ g' h' ∧ g.nodes.size ≤ g'.nodes.size) (g.normalizeNode n)
      (h.normalizeNode (σ n)) := by
  have hsplit : ∀ g₁ h₁, Matches σ τ g₁ h₁ ∧ g.nodes.size ≤ g₁.nodes.size →
      Both (fun g' h' => Matches σ τ g' h' ∧ g.nodes.size ≤ g'.nodes.size)
        (if 1 < (g₁.node n).outgoing.length then g₁.splitOutgoing n else .ok g₁)
        (if 1 < (h₁.node (σ n)).outgoing.length then h₁.splitOutgoing (σ n) else .ok h₁) := by
    rintro g₁ h₁ ⟨hm₁, hsize⟩
    rw [hm₁.renames.length_outgoing hm₁.linked hm₁.linked']
    split
    · exact (hm₁.splitOutgoing (Nat.lt_of_lt_of_le hn hsize)).imp fun _ _ h₂ =>
        ⟨h₂.1, Nat.le_trans hsize h₂.2⟩
    · exact .ok ⟨hm₁, hsize⟩
  simp only [ProcessGraph.normalizeNode, hm.renames.node_kind,
    hm.renames.length_incoming hm.linked hm.linked']
  split
  · exact .ok ⟨hm, Nat.le_refl _⟩
  · split
    · exact (hm.joinIncoming hn).bind hsplit
    · exact hsplit g h ⟨hm, Nat.le_refl _⟩

theorem foldlM_normalizeNode (hm : Matches σ τ g h) {l : List NodeId}
    (hl : ∀ n ∈ l, index n < g.nodes.size) :
    Both (Matches σ τ) (l.foldlM ProcessGraph.normalizeNode g)
      ((l.map σ).foldlM ProcessGraph.normalizeNode h) := by
  induction l generalizing g h with
  | nil => exact .ok hm
  | cons n l ih =>
    rw [List.map_cons, List.foldlM_cons, List.foldlM_cons]
    refine (hm.normalizeNode (hl n List.mem_cons_self)).bind fun g₁ h₁ ⟨hm₁, hsize⟩ =>
      ih hm₁ fun m hmem => ?_
    exact Nat.lt_of_lt_of_le (hl m (List.mem_cons_of_mem _ hmem)) hsize

/-- `normalize` succeeds on both graphs, or fails on both for the same reason. -/
theorem normalize (hm : Matches σ τ g h) : Both (Matches σ τ) g.normalize h.normalize := by
  rw [ProcessGraph.normalize, ProcessGraph.normalize, hm.renames.sortedNodes_eq hm.distinct']
  exact hm.foldlM_normalizeNode fun _ => mem_sortedNodes.1

end Matches

end ProcessGraph

end ProcessNet
