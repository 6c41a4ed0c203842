/-
When a graph can be brought into gateway form. A node with several flows on one side needs two ids, one
for the gateway on that side and one for the flow between them, and gateway form is reached if and only
if all of these are vacant at the start: the ids made for different nodes never meet, and a node that is
handled leaves the flows at other nodes as many as they were.
-/
import ProcessNet.Proofs.Process.Normal

namespace ProcessNet.ProcessGraph

open Identifier

variable {g g' : ProcessGraph} {n m : NodeId} {a b id : String}

/-! ## Ids for gateways and their flows -/

theorem joinId_inj : joinId a = joinId b ↔ a = b := by
  simp [joinId]

theorem splitId_inj : splitId a = splitId b ↔ a = b := by
  simp [splitId]

theorem connectorId_inj : connectorId a = connectorId b ↔ a = b := by
  simp [connectorId]

theorem joinId_ne_splitId (a b : String) : joinId a ≠ splitId b := by
  intro h
  have hchars := congrArg String.toList h
  simp [joinId, splitId] at hchars

/-- Neither a node nor the process has the id, and no flow has that of the flow at such a gateway. -/
structure Vacant (g : ProcessGraph) (gateway : String) : Prop where
  root : gateway ≠ g.processId
  node : ∀ n, index n < g.nodes.size → (g.node n).id ≠ gateway
  flow : ∀ f, index f < g.flows.size → (g.flow f).id ≠ connectorId gateway

/-- The ids are vacant that gateways at the node `n` need. -/
structure Ready (g : ProcessGraph) (n : NodeId) : Prop where
  join : 1 < (g.node n).incoming.length → g.Vacant (joinId (g.node n).id)
  split : 1 < (g.node n).outgoing.length → g.Vacant (splitId (g.node n).id)

theorem obstacle?_eq_none_iff {owner : String} {gateway : Node} :
    g.obstacle? owner gateway = none ↔ g.Vacant gateway.id := by
  unfold obstacle?
  split
  · rename_i hnode
    obtain ⟨n, hn, hid⟩ := isSome_nodeById?_iff.1 hnode
    exact ⟨nofun, fun h => absurd hid (h.node n hn)⟩
  rename_i hnode
  split
  · rename_i hroot
    exact ⟨nofun, fun h => absurd hroot h.root⟩
  rename_i hroot
  split
  · rename_i hflow
    obtain ⟨f, hf, hid⟩ := isSome_flowById?_iff.1 hflow
    exact ⟨nofun, fun h => absurd hid (h.flow f hf)⟩
  rename_i hflow
  exact ⟨fun _ => ⟨hroot, fun n hn hid => hnode (isSome_nodeById?_iff.2 ⟨n, hn, hid⟩),
    fun f hf hid => hflow (isSome_flowById?_iff.2 ⟨f, hf, hid⟩)⟩, fun _ => rfl⟩

theorem error?_eq_none_iff {ε α : Type} {r : Except ε α} : error? r = none ↔ ∃ x, r = .ok x := by
  cases r with
  | ok x => exact ⟨fun _ => ⟨x, rfl⟩, fun _ => rfl⟩
  | error e => exact ⟨nofun, nofun⟩

theorem exists_joinIncoming_iff (hg : g.Linked) (n : NodeId) :
    (∃ g', g.joinIncoming n = .ok g') ↔ g.Vacant (joinId (g.node n).id) := by
  rw [← error?_eq_none_iff, error?_joinIncoming hg]
  exact obstacle?_eq_none_iff

theorem exists_splitOutgoing_iff (hg : g.Linked) (n : NodeId) :
    (∃ g', g.splitOutgoing n = .ok g') ↔ g.Vacant (splitId (g.node n).id) := by
  rw [← error?_eq_none_iff, error?_splitOutgoing hg]
  exact obstacle?_eq_none_iff

/-! ## Ids that a gateway takes -/

/-- A gateway takes its own id and that of its flow, and no others. -/
theorem Rerouted.vacant_iff {gateway : Node} {connector : Flow} {move : Flow → Flow}
    (h : Rerouted g gateway connector move g') (hid : connector.id = connectorId gateway.id)
    (hmove : ∀ x, (move x).id = x.id) : g'.Vacant id ↔ g.Vacant id ∧ id ≠ gateway.id := by
  have hold : ∀ n, index n < g.nodes.size → (g'.node n).id = (g.node n).id := fun n hn =>
    congrArg (·.id) (h.node_old hn)
  have hnew : (g'.node g.nodes.next).id = gateway.id := by
    have hbare := h.bare g.nodes.next
    rw [if_pos rfl] at hbare
    exact congrArg (·.id) hbare
  constructor
  · rintro ⟨hroot, hnode, hflow⟩
    refine ⟨⟨h.processId ▸ hroot, fun n hn => ?_, fun f hf => ?_⟩, ?_⟩
    · rw [← hold n hn]
      exact hnode n (h.nodeCount.symm ▸ Nat.lt_succ_of_lt hn)
    · rw [← hmove, ← h.flow f hf]
      exact hflow f (h.flowCount.symm ▸ Nat.lt_succ_of_lt hf)
    · rw [← hnew]
      exact (hnode _ (h.nodeCount.symm ▸ Arena.lt_succ_iff_next.2 (.inr rfl))).symm
  · rintro ⟨⟨hroot, hnode, hflow⟩, hne⟩
    refine ⟨h.processId.symm ▸ hroot, fun n hn => ?_, fun f hf => ?_⟩
    · rw [h.nodeCount, Arena.lt_succ_iff_next] at hn
      rcases hn with hn | rfl
      · rw [hold n hn]
        exact hnode n hn
      · rw [hnew]
        exact hne.symm
    · rw [h.flowCount, Arena.lt_succ_iff_next] at hf
      rcases hf with hf | rfl
      · rw [h.flow f hf, hmove]
        exact hflow f hf
      · rw [h.connector, hid]
        exact fun he => hne (connectorId_inj.1 he).symm

theorem vacant_joinIncoming (hg : g.Linked) (hn : index n < g.nodes.size)
    (h : g.joinIncoming n = .ok g') :
    g'.Vacant id ↔ g.Vacant id ∧ id ≠ joinId (g.node n).id :=
  (rerouted_joinIncoming hg hn h).vacant_iff rfl (id_leadInto _ _)

theorem vacant_splitOutgoing (hg : g.Linked) (hn : index n < g.nodes.size)
    (h : g.splitOutgoing n = .ok g') :
    g'.Vacant id ↔ g.Vacant id ∧ id ≠ splitId (g.node n).id :=
  (rerouted_splitOutgoing hg hn h).vacant_iff rfl (id_leadOutOf _ _)

/-- `normalizeNode` leaves all ids vacant that are not made for its node. -/
theorem vacant_normalizeNode (hg : g.Linked) (hd : g.Distinct) (hn : index n < g.nodes.size)
    (h : g.normalizeNode n = .ok g') (hjoin : id ≠ joinId (g.node n).id)
    (hsplit : id ≠ splitId (g.node n).id) : g'.Vacant id ↔ g.Vacant id := by
  rcases normalizeNode_eq_ok h with ⟨_, rfl⟩ | ⟨_, g₁, hfirst, hsecond⟩
  · rfl
  have h₁ : g₁.Linked ∧ index n < g₁.nodes.size ∧ (g₁.node n).id = (g.node n).id ∧
      (g₁.Vacant id ↔ g.Vacant id) := by
    rcases hfirst with ⟨_, rfl⟩ | ⟨_, hfirst⟩
    · exact ⟨hg, hn, rfl, .rfl⟩
    · have htrim := (trimmed_joinIncoming hg hd hn hfirst).1
      exact ⟨htrim.linked, Nat.lt_of_lt_of_le hn htrim.refines.size, (htrim.refines.id_eq hn).1,
        (vacant_joinIncoming hg hn hfirst).trans (and_iff_left hjoin)⟩
  obtain ⟨hg₁, hn₁, hid, hvacant⟩ := h₁
  rcases hsecond with ⟨_, rfl⟩ | ⟨_, hsecond⟩
  · exact hvacant
  · exact ((vacant_splitOutgoing hg₁ hn₁ hsecond).trans (and_iff_left (hid ▸ hsplit))).trans hvacant

/-! ## Nodes one after the other -/

/-- `normalizeNode` succeeds if and only if the ids of the gateways for the node are vacant. -/
theorem exists_normalizeNode_iff (hg : g.Linked) (hd : g.Distinct) (hn : index n < g.nodes.size)
    (hkind : (g.node n).kind.isGateway = false) :
    (∃ g', g.normalizeNode n = .ok g') ↔ g.Ready n := by
  -- what is left to do behind the node does not depend on what was done in front of it
  have hbehind : ∀ g₁ : ProcessGraph, g₁.Linked →
      ((∃ g', (if 1 < (g₁.node n).outgoing.length then g₁.splitOutgoing n else .ok g₁) = .ok g') ↔
        (1 < (g₁.node n).outgoing.length → g₁.Vacant (splitId (g₁.node n).id))) := by
    intro g₁ hg₁
    split
    · rename_i hlen
      rw [exists_splitOutgoing_iff hg₁]
      exact ⟨fun h _ => h, fun h => h hlen⟩
    · rename_i hlen
      exact ⟨fun _ h => absurd h hlen, fun _ => ⟨g₁, rfl⟩⟩
  unfold normalizeNode
  rw [if_neg (by rw [hkind]; exact Bool.false_ne_true)]
  by_cases hlen : 1 < (g.node n).incoming.length
  · simp only [if_pos hlen]
    cases hjoin : g.joinIncoming n with
    | error e =>
      refine ⟨nofun, fun hready => ?_⟩
      obtain ⟨g₁, hok⟩ := (exists_joinIncoming_iff hg n).2 (hready.join hlen)
      rw [hjoin] at hok
      cases hok
    | ok g₁ =>
      have htrim := (trimmed_joinIncoming hg hd hn hjoin).1
      refine (hbehind g₁ htrim.linked).trans ?_
      rw [(perm_outgoing_of_join hg hn hjoin hn).length_eq, (htrim.refines.id_eq hn).1,
        vacant_joinIncoming hg hn hjoin, and_iff_left (joinId_ne_splitId _ _).symm]
      exact ⟨fun h => ⟨fun _ => (exists_joinIncoming_iff hg n).1 ⟨g₁, hjoin⟩, h⟩, fun h => h.split⟩
  · simp only [if_neg hlen]
    refine (hbehind g hg).trans ?_
    exact ⟨fun h => ⟨fun hmany => absurd hmany hlen, h⟩, fun h => h.split⟩

/-- What one node gets does not matter to another one. -/
theorem ready_normalizeNode (hg : g.Linked) (hd : g.Distinct) (hn : index n < g.nodes.size)
    (h : g.normalizeNode n = .ok g') (hm : index m < g.nodes.size) (hne : m ≠ n) :
    g'.Ready m ↔ g.Ready m := by
  have htrim := (trimmed_normalizeNode hg hd hn h).1
  have hid : (g.node m).id ≠ (g.node n).id := fun he => hne (hd.node m n hm hn he)
  have hjoin : g'.Vacant (joinId (g.node m).id) ↔ g.Vacant (joinId (g.node m).id) :=
    vacant_normalizeNode hg hd hn h (fun he => hid (joinId_inj.1 he)) (joinId_ne_splitId _ _)
  have hsplit : g'.Vacant (splitId (g.node m).id) ↔ g.Vacant (splitId (g.node m).id) :=
    vacant_normalizeNode hg hd hn h (joinId_ne_splitId _ _).symm fun he => hid (splitId_inj.1 he)
  have hsame := (htrim.refines.id_eq hm).1
  constructor
  · rintro ⟨hin, hout⟩
    rw [htrim.incoming m hm hne, hsame, hjoin] at hin
    rw [htrim.outgoing m hm hne, hsame, hsplit] at hout
    exact ⟨hin, hout⟩
  · rintro ⟨hin, hout⟩
    refine ⟨?_, ?_⟩
    · rw [htrim.incoming m hm hne, hsame, hjoin]
      exact hin
    · rw [htrim.outgoing m hm hne, hsame, hsplit]
      exact hout

theorem exists_foldlM_normalizeNode_iff {l : List NodeId} (hg : g.Linked) (hd : g.Distinct)
    (hl : ∀ n ∈ l, index n < g.nodes.size) (hnodup : l.Nodup) :
    (∃ g', l.foldlM normalizeNode g = .ok g') ↔
      ∀ n ∈ l, (g.node n).kind.isGateway = false → g.Ready n := by
  induction l generalizing g with
  | nil => exact ⟨fun _ _ hn => absurd hn List.not_mem_nil, fun _ => ⟨g, rfl⟩⟩
  | cons n l ih =>
    obtain ⟨hn, hl⟩ := List.forall_mem_cons.1 hl
    obtain ⟨hnl, hnodup⟩ := List.nodup_cons.1 hnodup
    rw [List.foldlM_cons, List.forall_mem_cons]
    cases hstep : g.normalizeNode n with
    | error e =>
      refine ⟨nofun, fun ⟨hready, _⟩ => ?_⟩
      by_cases hkind : (g.node n).kind.isGateway
      · rw [normalizeNode, if_pos hkind] at hstep
        cases hstep
      · have hkind := Bool.eq_false_iff.2 hkind
        obtain ⟨g₁, hok⟩ := (exists_normalizeNode_iff hg hd hn hkind).2 (hready hkind)
        rw [hstep] at hok
        cases hok
    | ok g₁ =>
      have htrim := (trimmed_normalizeNode hg hd hn hstep).1
      have hready : (g.node n).kind.isGateway = false → g.Ready n := fun hkind =>
        (exists_normalizeNode_iff hg hd hn hkind).1 ⟨g₁, hstep⟩
      have hrest := ih htrim.linked htrim.distinct
        (fun m hm => Nat.lt_of_lt_of_le (hl m hm) htrim.refines.size) hnodup
      -- the nodes that wait need what they needed before, `n` being none of them
      refine hrest.trans ((forall₂_congr fun m hm => ?_).trans (and_iff_right hready).symm)
      have hne : m ≠ n := fun he => hnl (he ▸ hm)
      rw [(htrim.refines.id_eq (hl m hm)).2.2, ready_normalizeNode hg hd hn hstep (hl m hm) hne]

/-- `normalize` succeeds if and only if all ids that are needed for it are vacant. -/
theorem exists_normalize_iff (hg : g.Linked) (hd : g.Distinct) :
    (∃ g', g.normalize = .ok g') ↔
      ∀ n, index n < g.nodes.size → (g.node n).kind.isGateway = false → g.Ready n := by
  have hfold := exists_foldlM_normalizeNode_iff hg hd (fun _ => mem_sortedNodes.1)
    (nodup_sortedNodes g)
  simp only [mem_sortedNodes] at hfold
  exact hfold

end ProcessNet.ProcessGraph
