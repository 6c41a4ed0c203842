/-
Gateway form is undone by contraction. Every gateway that it adds belongs to one node, and whoever takes
the gateway for that node again finds the old flows at their old ends; each new flow shrinks to one node.
What was there at the start keeps its number and its data, gateways of the start keep their flows, and a
graph in gateway form is not changed any more.
-/
import Mathlib.Logic.Function.Basic
import ProcessNet.Proofs.Process.Document
import ProcessNet.Proofs.Process.Vacancy

namespace ProcessNet.ProcessGraph

open Identifier

variable {g₀ g g' : ProcessGraph} {n m : NodeId} {owner : NodeId → NodeId}

/-! ## Owners of gateways -/

/-- The gateway is one that gateway form gives to the node `n`. -/
structure Owns (g : ProcessGraph) (n : NodeId) (gateway : Node) : Prop where
  lt : index n < g.nodes.size
  kind : (g.node n).kind.isGateway = false
  needed : 1 < (g.node n).incoming.length ∧ gateway = joinGateway (g.node n) ∨
    1 < (g.node n).outgoing.length ∧ gateway = splitGateway (g.node n)

/-- `g'` is `g` with gateways and flows on top, which go away when each node is taken for its owner. -/
structure Contracts (owner : NodeId → NodeId) (g g' : ProcessGraph) : Prop where
  processId : g'.processId = g.processId
  name : g'.name = g.name
  nodeCount : g.nodes.size ≤ g'.nodes.size
  flowCount : g.flows.size ≤ g'.flows.size
  node : ∀ n, index n < g.nodes.size → owner n = n ∧ (g'.node n).bare = (g.node n).bare
  gateway : ∀ m, g.nodes.size ≤ index m → index m < g'.nodes.size →
    g.Owns (owner m) (g'.node m).bare
  flow : ∀ f, index f < g.flows.size → g.flow f = { g'.flow f with
    source := owner (g'.flow f).source
    target := owner (g'.flow f).target }
  connector : ∀ f, g.flows.size ≤ index f → index f < g'.flows.size →
    ∃ m, g.nodes.size ≤ index m ∧ index m < g'.nodes.size ∧
      (g'.flow f).id = connectorId (g'.node m).id ∧
      owner (g'.flow f).source = owner m ∧ owner (g'.flow f).target = owner m
  /-- No node has more flows than before. -/
  fewer : ∀ n, index n < g.nodes.size →
    (g'.node n).incoming.length ≤ (g.node n).incoming.length ∧
      (g'.node n).outgoing.length ≤ (g.node n).outgoing.length
  kept : ∀ n, index n < g.nodes.size → (g.node n).kind.isGateway →
    (g'.node n).incoming = (g.node n).incoming ∧ (g'.node n).outgoing = (g.node n).outgoing

theorem Contracts.refl (g : ProcessGraph) : Contracts id g g where
  processId := rfl
  name := rfl
  nodeCount := Nat.le_refl _
  flowCount := Nat.le_refl _
  node _ _ := ⟨rfl, rfl⟩
  gateway _ hm hlt := absurd hlt (Nat.not_lt.2 hm)
  flow _ _ := rfl
  connector _ hf hlt := absurd hlt (Nat.not_lt.2 hf)
  fewer _ _ := ⟨Nat.le_refl _, Nat.le_refl _⟩
  kept _ _ _ := ⟨rfl, rfl⟩

/-- Only gateways are new. -/
theorem Contracts.lt_of_kind (h : Contracts owner g₀ g) (hn : index n < g.nodes.size)
    (hkind : (g.node n).kind.isGateway = false) : index n < g₀.nodes.size := by
  by_contra hnew
  have hgateway : (g.node n).kind.isGateway = true := by
    rcases (h.gateway n (Nat.le_of_not_lt hnew) hn).needed with ⟨_, hbare⟩ | ⟨_, hbare⟩ <;>
    · have hsame := congrArg (·.kind.isGateway) hbare
      exact hsame
  rw [hkind] at hgateway
  cases hgateway

/-! ## One gateway more -/

section Rerouted

variable {gateway : Node} {connector : Flow} {move : Flow → Flow}

/-- A gateway that the node `n` gets is owned by it, and flows that are moved to the gateway have moved
within the node. -/
theorem Contracts.rerouted (h : Contracts owner g₀ g) (hg : g.Linked)
    (hr : Rerouted g gateway connector move g') (hown : g₀.Owns n gateway)
    (hdata : ∀ x, { move x with source := x.source, target := x.target } = x)
    (hsource : ∀ x, index x.source < g.nodes.size →
      Function.update owner g.nodes.next n (move x).source = owner x.source)
    (htarget : ∀ x, index x.target < g.nodes.size →
      Function.update owner g.nodes.next n (move x).target = owner x.target)
    (hid : connector.id = connectorId gateway.id)
    (hends : Function.update owner g.nodes.next n connector.source = n ∧
      Function.update owner g.nodes.next n connector.target = n)
    (hfewer : (g'.node n).incoming.length ≤ (g.node n).incoming.length ∧
      (g'.node n).outgoing.length ≤ (g.node n).outgoing.length)
    (hkept : ∀ m, index m < g.nodes.size → m ≠ n →
      (g'.node m).incoming = (g.node m).incoming ∧ (g'.node m).outgoing = (g.node m).outgoing) :
    Contracts (Function.update owner g.nodes.next n) g₀ g' := by
  have hold : ∀ m, index m < g.nodes.size →
      Function.update owner g.nodes.next n m = owner m ∧ (g'.node m).bare = (g.node m).bare :=
    fun m hm => ⟨Function.update_of_ne (Arena.ne_next_of_lt hm) _ _, hr.node_old hm⟩
  have hlt : ∀ {m : NodeId}, index m < g₀.nodes.size → index m < g.nodes.size := fun hm =>
    Nat.lt_of_lt_of_le hm h.nodeCount
  have hnew : (g'.node g.nodes.next).bare = gateway := by rw [hr.bare, if_pos rfl]
  have hnext : g₀.nodes.size ≤ index g.nodes.next ∧ index g.nodes.next < g'.nodes.size := by
    rw [hr.nodeCount, Arena.index_next]
    exact ⟨h.nodeCount, Nat.lt_succ_self _⟩
  refine {
    processId := hr.processId.trans h.processId
    name := hr.name.trans h.name
    nodeCount := hr.nodeCount ▸ Nat.le_succ_of_le h.nodeCount
    flowCount := hr.flowCount ▸ Nat.le_succ_of_le h.flowCount
    node := fun m hm => ?node
    gateway := fun m hm hm' => ?gateway
    flow := fun f hf => ?flow
    connector := fun f hf hf' => ?connector
    fewer := fun m hm => ?fewer
    kept := fun m hm hkind => ?kept }
  case node =>
    obtain ⟨howner, hbare⟩ := hold m (hlt hm)
    exact ⟨howner.trans (h.node m hm).1, hbare.trans (h.node m hm).2⟩
  case gateway =>
    rw [hr.nodeCount, Arena.lt_succ_iff_next] at hm'
    rcases hm' with hm' | rfl
    · obtain ⟨howner, hbare⟩ := hold m hm'
      rw [howner, hbare]
      exact h.gateway m hm hm'
    · rw [Function.update_self, hnew]
      exact hown
  case flow =>
    -- a flow at `n` may have moved, but only to a gateway that is taken for `n`
    have hf₁ := Nat.lt_of_lt_of_le hf h.flowCount
    have hmoved := hdata (g.flow f)
    rw [h.flow f hf, hr.flow f hf₁, hsource _ (hg.source f hf₁), htarget _ (hg.target f hf₁)]
    exact congrArg (fun x : Flow => { x with
      source := owner (g.flow f).source, target := owner (g.flow f).target }) hmoved.symm
  case connector =>
    rw [hr.flowCount, Arena.lt_succ_iff_next] at hf'
    rcases hf' with hf' | rfl
    · obtain ⟨m, hm, hm', hfid, hs, ht⟩ := h.connector f hf hf'
      have hmid : (move (g.flow f)).id = (g.flow f).id := congrArg (·.id) (hdata (g.flow f))
      refine ⟨m, hm, hr.nodeCount ▸ Nat.lt_succ_of_lt hm', ?_, ?_, ?_⟩
      · rw [hr.flow f hf', hmid, hfid]
        exact congrArg connectorId (congrArg (·.id) (hold m hm').2).symm
      · rw [hr.flow f hf', hsource _ (hg.source f hf'), (hold m hm').1, hs]
      · rw [hr.flow f hf', htarget _ (hg.target f hf'), (hold m hm').1, ht]
    · refine ⟨g.nodes.next, hnext.1, hnext.2, ?_, ?_, ?_⟩
      · rw [hr.connector, hid]
        exact congrArg connectorId (congrArg (·.id) hnew).symm
      · rw [hr.connector, hends.1, Function.update_self]
      · rw [hr.connector, hends.2, Function.update_self]
  case fewer =>
    obtain ⟨hin, hout⟩ := h.fewer m hm
    by_cases hmn : m = n
    · subst hmn
      exact ⟨Nat.le_trans hfewer.1 hin, Nat.le_trans hfewer.2 hout⟩
    · obtain ⟨hin', hout'⟩ := hkept m (hlt hm) hmn
      rw [hin', hout']
      exact ⟨hin, hout⟩
  case kept =>
    -- the owner of a gateway is none itself
    have hmn : m ≠ n := by
      rintro rfl
      rw [hown.kind] at hkind
      cases hkind
    obtain ⟨hin', hout'⟩ := hkept m (hlt hm) hmn
    rw [hin', hout']
    exact h.kept m hm hkind

end Rerouted

/-- What is given to a node later is what it could have been given at the start. -/
theorem Contracts.owns {gateway : Node} (h : Contracts owner g₀ g) (hown : g.Owns n gateway) :
    g₀.Owns n gateway := by
  have hn := h.lt_of_kind hown.lt hown.kind
  have hbare := (h.node n hn).2
  have hjoin : joinGateway (g.node n).bare = joinGateway (g₀.node n).bare := by rw [hbare]
  have hsplit : splitGateway (g.node n).bare = splitGateway (g₀.node n).bare := by rw [hbare]
  have hkind : (g₀.node n).kind = (g.node n).kind := (congrArg (·.kind) hbare).symm
  refine ⟨hn, hkind ▸ hown.kind, ?_⟩
  rcases hown.needed with ⟨hlen, rfl⟩ | ⟨hlen, rfl⟩
  · exact .inl ⟨Nat.lt_of_lt_of_le hlen (h.fewer n hn).1, hjoin⟩
  · exact .inr ⟨Nat.lt_of_lt_of_le hlen (h.fewer n hn).2, hsplit⟩

theorem Contracts.joinIncoming (h : Contracts owner g₀ g) (hg : g.Tidy)
    (hn : index n < g.nodes.size) (hkind : (g.node n).kind.isGateway = false)
    (hlen : 1 < (g.node n).incoming.length) (hok : g.joinIncoming n = .ok g') :
    Contracts (Function.update owner g.nodes.next n) g₀ g' := by
  have hr := rerouted_joinIncoming hg.linked hn hok
  have hg' := hg.joinIncoming hn hok
  have hown := h.owns ⟨hn, hkind, .inl ⟨hlen, rfl⟩⟩
  have hself : Function.update owner g.nodes.next n n = n :=
    (Function.update_of_ne (Arena.ne_next_of_lt hn) _ _).trans (h.node n hown.lt).1
  refine h.rerouted hg.linked hr hown (leadInto_eq _ _) (fun x hx => ?_) (fun x hx => ?_) rfl
    ⟨Function.update_self _ _ _, hself⟩ ⟨?_, ?_⟩ fun m hm hne => ⟨?_, ?_⟩
  · rw [source_leadInto, Function.update_of_ne (Arena.ne_next_of_lt hx)]
  · rw [target_leadInto]
    split
    · rename_i hxn
      rw [Function.update_self, hxn, (h.node n hown.lt).1]
    · exact Function.update_of_ne (Arena.ne_next_of_lt hx) _ _
  · exact Nat.le_trans (hr.incoming_le fun _ => target_leadInto_ne (Arena.ne_next_of_lt hn))
      (Nat.le_of_lt hlen)
  · exact Nat.le_of_eq (perm_outgoing_of_join hg.linked hn hok hn).length_eq
  · exact (hg'.incoming m).ext (hg.incoming m) fun _ =>
      (perm_incoming_of_join hg.linked hn hok hm hne).mem_iff
  · exact (hg'.outgoing m).ext (hg.outgoing m) fun _ =>
      (perm_outgoing_of_join hg.linked hn hok hm).mem_iff

theorem Contracts.splitOutgoing (h : Contracts owner g₀ g) (hg : g.Tidy)
    (hn : index n < g.nodes.size) (hkind : (g.node n).kind.isGateway = false)
    (hlen : 1 < (g.node n).outgoing.length) (hok : g.splitOutgoing n = .ok g') :
    Contracts (Function.update owner g.nodes.next n) g₀ g' := by
  have hr := rerouted_splitOutgoing hg.linked hn hok
  have hg' := hg.splitOutgoing hn hok
  have hown := h.owns ⟨hn, hkind, .inr ⟨hlen, rfl⟩⟩
  have hself : Function.update owner g.nodes.next n n = n :=
    (Function.update_of_ne (Arena.ne_next_of_lt hn) _ _).trans (h.node n hown.lt).1
  refine h.rerouted hg.linked hr hown (leadOutOf_eq _ _) (fun x hx => ?_) (fun x hx => ?_) rfl
    ⟨hself, Function.update_self _ _ _⟩ ⟨?_, ?_⟩ fun m hm hne => ⟨?_, ?_⟩
  · rw [source_leadOutOf]
    split
    · rename_i hxn
      rw [Function.update_self, hxn, (h.node n hown.lt).1]
    · exact Function.update_of_ne (Arena.ne_next_of_lt hx) _ _
  · rw [target_leadOutOf, Function.update_of_ne (Arena.ne_next_of_lt hx)]
  · exact Nat.le_of_eq (perm_incoming_of_split hg.linked hn hok hn).length_eq
  · exact Nat.le_trans (hr.outgoing_le fun _ => source_leadOutOf_ne (Arena.ne_next_of_lt hn))
      (Nat.le_of_lt hlen)
  · exact (hg'.incoming m).ext (hg.incoming m) fun _ =>
      (perm_incoming_of_split hg.linked hn hok hm).mem_iff
  · exact (hg'.outgoing m).ext (hg.outgoing m) fun _ =>
      (perm_outgoing_of_split hg.linked hn hok hm hne).mem_iff

/-! ## All gateways -/

theorem exists_contracts_normalize (hg : g.Tidy) (hd : g.Distinct) (h : g.normalize = .ok g') :
    ∃ owner, Contracts owner g g' := by
  refine (keeps_normalize (P := fun x => x.Tidy ∧ ∃ owner, Contracts owner g x) ?_ ?_ hg.linked hd
    ⟨hg, id, .refl g⟩ h).2
  · rintro x x' n _ hn hkind hlen ⟨hx, owner, hc⟩ hok
    exact ⟨hx.joinIncoming hn hok, _, hc.joinIncoming hx hn hkind hlen hok⟩
  · rintro x x' n _ hn hkind hlen ⟨hx, owner, hc⟩ hok
    exact ⟨hx.splitOutgoing hn hok, _, hc.splitOutgoing hx hn hkind hlen hok⟩

/-- In gateway form `normalize` finds no node that needs a gateway. -/
theorem normalize_of_inGatewayForm (h : g.InGatewayForm) : g.normalize = .ok g := by
  have hnode : ∀ n, g.normalizeNode n = .ok g := by
    intro n
    unfold normalizeNode
    split
    · rfl
    · rename_i hkind
      obtain ⟨hin, hout⟩ := inGatewayForm_iff.1 h n (Bool.eq_false_iff.2 hkind)
      rw [if_neg (Nat.not_lt.2 hin)]
      exact if_neg (Nat.not_lt.2 hout)
  have hall : ∀ l : List NodeId, l.foldlM normalizeNode g = .ok g := by
    intro l
    induction l with
    | nil => rfl
    | cons n l ih => rw [List.foldlM_cons, hnode n]; exact ih
  exact hall _

/-- `normalize` brings a graph that was built into gateway form if and only if the ids for it are vacant.
What comes out is in gateway form and lists its flows at their ends; contracting the gateways gives the
old flows back, and to do it once more changes nothing. -/
theorem normalize_conservative {d : ProcessDeclaration} (h : d.build = .ok g) :
    ((∃ g', g.normalize = .ok g') ↔
      ∀ n, index n < g.nodes.size → (g.node n).kind.isGateway = false → g.Ready n) ∧
    ∀ g', g.normalize = .ok g' → g'.InGatewayForm ∧ g'.Linked ∧
      (∃ owner, Contracts owner g g') ∧ g'.normalize = .ok g' := by
  have hg := ProcessDeclaration.tidy_of_build h
  have hd := (ProcessDeclaration.declares_of_build h).2.distinct
  refine ⟨exists_normalize_iff hg.linked hd, fun g' hok => ?_⟩
  have hnormal := normal_normalize hg.linked hd hok
  exact ⟨hnormal.form, hnormal.linked, exists_contracts_normalize hg hd hok,
    normalize_of_inGatewayForm hnormal.form⟩

open ProcessDeclaration in
/-- The flow from a task to itself leads into the gateway of the task, and back to the task when the
gateway is taken for it. -/
theorem normalize_conservative_retried : ∃ normal, retriedGraph.normalize = .ok normal ∧
    normal.normalize = .ok normal ∧ ∃ owner, Contracts owner retriedGraph normal ∧
      owner (normal.flow ⟨1⟩).target = ⟨3⟩ := by
  have hbuild : retried.build = .ok retriedGraph := by decide +kernel
  obtain ⟨normal, hnormal, _⟩ := normalize_retried
  obtain ⟨_, _, ⟨owner, howner⟩, hagain⟩ := (normalize_conservative hbuild).2 normal hnormal
  have htarget : (retriedGraph.flow ⟨1⟩).target = owner (normal.flow ⟨1⟩).target :=
    congrArg (·.target) (howner.flow ⟨1⟩ (by decide))
  exact ⟨normal, hnormal, hagain, owner, howner, htarget.symm⟩

end ProcessNet.ProcessGraph
