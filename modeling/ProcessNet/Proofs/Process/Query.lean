/-
The lists of nodes and flows of a process graph: which members they have, each of them once.
-/
import Mathlib.Data.List.Nodup
import ProcessNet.Process.Query
import ProcessNet.Proofs.Net.Consistent

namespace ProcessNet

open Identifier

namespace ProcessGraph

variable {g : ProcessGraph}

theorem perm_sortedNodes (g : ProcessGraph) : g.sortedNodes.Perm g.nodes.ids := by
  rw [← Arena.map_fst_entries]
  exact (List.mergeSort_perm _ _).map _

theorem perm_sortedFlows (g : ProcessGraph) : g.sortedFlows.Perm g.flows.ids := by
  rw [← Arena.map_fst_entries]
  exact (List.mergeSort_perm _ _).map _

theorem mem_sortedNodes {n : NodeId} : n ∈ g.sortedNodes ↔ index n < g.nodes.size := by
  rw [(perm_sortedNodes g).mem_iff, Arena.mem_ids]

theorem mem_sortedFlows {f : FlowId} : f ∈ g.sortedFlows ↔ index f < g.flows.size := by
  rw [(perm_sortedFlows g).mem_iff, Arena.mem_ids]

theorem nodup_sortedNodes (g : ProcessGraph) : g.sortedNodes.Nodup :=
  (perm_sortedNodes g).nodup_iff.2 (Arena.ascending_ids _).nodup

theorem nodup_sortedFlows (g : ProcessGraph) : g.sortedFlows.Nodup :=
  (perm_sortedFlows g).nodup_iff.2 (Arena.ascending_ids _).nodup

/-- Lists are sorted by the ids of what they number. -/
theorem pairwise_sorted {ι α : Type} [Identifier ι] (a : Arena ι α) (id : α → String) (d : α) :
    ((a.entries.mergeSort fun x y => decide (id x.2 ≤ id y.2)).map (·.1)).Pairwise
      fun i j => id ((a.get? i).getD d) ≤ id ((a.get? j).getD d) := by
  rw [List.pairwise_map]
  have hsorted := @List.pairwise_mergeSort _ (fun (x y : ι × α) => decide (id x.2 ≤ id y.2))
    (fun x y z hxy hyz => decide_eq_true
      (String.le_trans (of_decide_eq_true hxy) (of_decide_eq_true hyz)))
    (fun x y => by simpa using String.le_total (id x.2) (id y.2)) a.entries
  refine hsorted.imp_of_mem fun {x y} hx hy hle => ?_
  rw [Arena.mem_entries.1 (List.mem_mergeSort.1 hx), Arena.mem_entries.1 (List.mem_mergeSort.1 hy)]
  exact of_decide_eq_true hle

theorem mem_select {keep : Node → Bool} {n : NodeId} :
    n ∈ g.select keep ↔ index n < g.nodes.size ∧ keep (g.node n) := by
  rw [select, List.mem_filter, mem_sortedNodes]

theorem nodup_select (keep : Node → Bool) : (g.select keep).Nodup :=
  (nodup_sortedNodes g).filter _

theorem mem_boundaryEventsOf {activity : String} {n : NodeId} :
    n ∈ g.boundaryEventsOf activity ↔
      index n < g.nodes.size ∧ ∃ trigger, (g.node n).kind = .boundaryEvent trigger activity := by
  rw [boundaryEventsOf, mem_select]
  refine and_congr_right fun _ => ?_
  split
  · rename_i trigger a hkind
    simp [hkind]
  · rename_i hkind
    constructor
    · intro h
      cases h
    · rintro ⟨trigger, h⟩
      exact absurd h (hkind trigger activity)

theorem mem_startsOf {process : String} {n : NodeId} :
    n ∈ g.startsOf process ↔
      index n < g.nodes.size ∧ (g.node n).process = process ∧ (g.node n).kind.isStart := by
  simp [startsOf, mem_select]

theorem mem_endsOf {process : String} {n : NodeId} :
    n ∈ g.endsOf process ↔
      index n < g.nodes.size ∧ (g.node n).process = process ∧ (g.node n).kind.isEnd := by
  simp [endsOf, mem_select]

theorem mem_subprocessesInnermostFirst {n : NodeId} :
    n ∈ g.subprocessesInnermostFirst ↔ index n < g.nodes.size ∧ (g.node n).kind.isSubprocess := by
  rw [subprocessesInnermostFirst, List.mem_mergeSort, subprocesses, mem_select]

theorem pairwise_depth (g : ProcessGraph) :
    g.subprocessesInnermostFirst.Pairwise fun n m => g.depth m ≤ g.depth n := by
  have hsorted := @List.pairwise_mergeSort _ (fun n m => decide (g.depth m ≤ g.depth n))
    (fun n m k hnm hmk => by simp only [decide_eq_true_eq] at hnm hmk ⊢; omega)
    (fun n m => by simp only [Bool.or_eq_true, decide_eq_true_eq]; omega) g.subprocesses
  exact hsorted.imp of_decide_eq_true

/-- A node that is not there is blank. -/
theorem node_eq_default {n : NodeId} (h : g.nodes.size ≤ index n) : g.node n = default := by
  rw [node, Arena.get?_eq_none_of_le h]
  rfl

/-- What holds of blank nodes holds of all nodes if it does of those that are there. -/
theorem forall_node_iff {P : Node → Prop} (hblank : P default) :
    (∀ n, P (g.node n)) ↔ ∀ x ∈ g.nodes.items, P x := by
  constructor
  · intro h x hx
    obtain ⟨i, hi⟩ := List.mem_iff_getElem?.1 hx
    have hn : P ((g.nodes.items[i]?).getD default) := h ⟨i⟩
    rwa [hi] at hn
  · intro h n
    cases hn : g.nodes.get? n with
    | none => rwa [node, hn]
    | some x =>
      rw [node, hn]
      exact h x (List.mem_of_getElem? hn)

/-- Only nodes that are there can be other than tasks. -/
theorem lt_of_kind {n : NodeId} (h : (g.node n).kind ≠ .task) : index n < g.nodes.size := by
  refine Nat.lt_of_not_le fun hle => h ?_
  rw [node_eq_default hle]
  rfl

theorem lt_of_isSubprocess {n : NodeId} (h : (g.node n).kind.isSubprocess) :
    index n < g.nodes.size :=
  lt_of_kind fun hkind => by rw [hkind] at h; cases h

theorem mem_of_isSubprocess {n : NodeId} (h : (g.node n).kind.isSubprocess) :
    n ∈ g.subprocessesInnermostFirst :=
  mem_subprocessesInnermostFirst.2 ⟨lt_of_isSubprocess h, h⟩

end ProcessGraph

end ProcessNet
