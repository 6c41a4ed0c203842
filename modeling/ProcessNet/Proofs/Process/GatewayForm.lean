/-
What gateway form does to a graph. Nodes stay what they are but for the flows at them, and only
exclusive gateways are new. In a graph whose flows are listed at their ends, one gateway in front of a
node, or behind it, takes over all flows there and is joined to the node by one new flow.
-/
import ProcessNet.Proofs.Process.Query
import ProcessNet.Process.GatewayForm

namespace ProcessNet

open Identifier

/-- The node without the flows at it. -/
def Node.bare (n : Node) : Node := { n with incoming := [], outgoing := [] }

theorem NodeKind.isGateway_of_isStart {kind : NodeKind} (h : kind.isStart) : kind.isGateway = false := by
  cases kind <;> first | rfl | cases h

theorem NodeKind.isGateway_of_isEnd {kind : NodeKind} (h : kind.isEnd) : kind.isGateway = false := by
  cases kind <;> first | rfl | cases h

theorem NodeKind.isGateway_of_isSubprocess {kind : NodeKind} (h : kind.isSubprocess) :
    kind.isGateway = false := by
  cases kind <;> first | rfl | cases h

namespace ProcessGraph

variable {g g' g'' : ProcessGraph}

/-! ## Nodes after an operation -/

theorem getD_get?_modify {ι α : Type} [Identifier ι] [DecidableEq ι] {a : Arena ι α} {i j : ι}
    {f : α → α} {d : α} (hi : index i < a.size) :
    ((a.modify i f).get? j).getD d = if i = j then f ((a.get? j).getD d) else (a.get? j).getD d := by
  rw [Arena.get?_modify]
  split
  · rename_i hij
    subst hij
    obtain ⟨x, hx⟩ : ∃ x, a.get? i = some x := ⟨_, List.getElem?_eq_getElem hi⟩
    rw [hx]
    rfl
  · rfl

theorem getD_get?_push {ι α : Type} [Identifier ι] [DecidableEq ι] {a : Arena ι α} {i : ι}
    {x d : α} : ((a.push x).get? i).getD d = if i = a.next then x else (a.get? i).getD d := by
  split
  · rename_i hi
    rw [hi, Arena.get?_push_next]
    rfl
  · rename_i hi
    rw [Arena.get?_push_of_ne hi]

theorem bare_modify (a : Arena NodeId Node) (i j : NodeId) {f : Node → Node}
    (hf : ∀ n, (f n).bare = n.bare) :
    (((a.modify i f).get? j).getD default).bare = ((a.get? j).getD default).bare := by
  rw [Arena.get?_modify]
  split
  · cases a.get? j with
    | none => rfl
    | some n => exact hf n
  · rfl

/-! ## What is kept of any graph -/

/-- `g'` has the nodes of `g`, with other flows at them, and more exclusive gateways. -/
structure Refines (g g' : ProcessGraph) : Prop where
  processId : g'.processId = g.processId
  size : g.nodes.size ≤ g'.nodes.size
  node : ∀ n, index n < g.nodes.size → (g'.node n).bare = (g.node n).bare
  gateway : ∀ n, g.nodes.size ≤ index n → index n < g'.nodes.size →
    ∃ d, (g'.node n).kind = .gateway .exclusive d

theorem Refines.refl (g : ProcessGraph) : Refines g g :=
  ⟨rfl, Nat.le_refl _, fun _ _ => rfl, fun _ h h' => absurd h' (Nat.not_lt.2 h)⟩

theorem Refines.trans (h : Refines g g') (k : Refines g' g'') : Refines g g'' := by
  refine ⟨k.processId.trans h.processId, Nat.le_trans h.size k.size, fun n hn => ?_, fun n hn hn' => ?_⟩
  · exact (k.node n (Nat.lt_of_lt_of_le hn h.size)).trans (h.node n hn)
  · by_cases hlt : index n < g'.nodes.size
    · obtain ⟨d, hd⟩ := h.gateway n hn hlt
      exact ⟨d, (congrArg Node.kind (k.node n hlt)).trans hd⟩
    · exact k.gateway n (Nat.le_of_not_lt hlt) hn'

/-- Only gateways are new in gateway form, so what is no gateway is as it was. -/
theorem Refines.node_iff {m : NodeId} (h : Refines g g') {P : Node → Prop}
    (hbare : ∀ x, P x ↔ P x.bare) (hgateway : ∀ x d, x.kind = .gateway .exclusive d → ¬ P x) :
    (index m < g'.nodes.size ∧ P (g'.node m)) ↔ index m < g.nodes.size ∧ P (g.node m) := by
  by_cases hm : index m < g.nodes.size
  · rw [hbare (g'.node m), h.node m hm, ← hbare]
    exact ⟨fun ⟨_, hP⟩ => ⟨hm, hP⟩, fun ⟨_, hP⟩ => ⟨Nat.lt_of_lt_of_le hm h.size, hP⟩⟩
  · constructor
    · rintro ⟨hlt, hP⟩
      obtain ⟨d, hd⟩ := h.gateway m (Nat.le_of_not_lt hm) hlt
      exact absurd hP (hgateway _ d hd)
    · exact fun ⟨hlt, _⟩ => absurd hlt hm

theorem Refines.id_eq {n : NodeId} (h : Refines g g') (hn : index n < g.nodes.size) :
    (g'.node n).id = (g.node n).id ∧ (g'.node n).process = (g.node n).process ∧
      (g'.node n).kind = (g.node n).kind := by
  have hbare := h.node n hn
  exact ⟨congrArg (·.id) hbare, congrArg (·.process) hbare, congrArg (·.kind) hbare⟩

/-- Changes of flows only. -/
theorem refines_of_nodes (hid : g'.processId = g.processId) (hsize : g'.nodes.size = g.nodes.size)
    (hnode : ∀ n, (g'.node n).bare = (g.node n).bare) : Refines g g' :=
  ⟨hid, Nat.le_of_eq hsize.symm, fun n _ => hnode n, fun _ h h' => absurd (hsize ▸ h') (Nat.not_lt.2 h)⟩

theorem refines_redirectTarget (g : ProcessGraph) (f : FlowId) (target : NodeId) :
    Refines g (g.redirectTarget f target) := by
  refine refines_of_nodes rfl (by simp [redirectTarget]) fun n => ?_
  unfold redirectTarget node
  refine (bare_modify _ _ _ ?_).trans (bare_modify _ _ _ ?_)
  · exact fun _ => rfl
  · exact fun _ => rfl

theorem refines_redirectSource (g : ProcessGraph) (f : FlowId) (source : NodeId) :
    Refines g (g.redirectSource f source) := by
  refine refines_of_nodes rfl (by simp [redirectSource]) fun n => ?_
  unfold redirectSource node
  refine (bare_modify _ _ _ ?_).trans (bare_modify _ _ _ ?_)
  · exact fun _ => rfl
  · exact fun _ => rfl

theorem refines_foldl {redirect : ProcessGraph → FlowId → ProcessGraph}
    (h : ∀ g f, Refines g (redirect g f)) (l : List FlowId) (g : ProcessGraph) :
    Refines g (l.foldl redirect g) := by
  induction l generalizing g with
  | nil => exact .refl g
  | cons f l ih => exact (h g f).trans (ih _)

theorem insertGateway_eq_ok {owner : Node} {id : String} {direction : GatewayDirection} {n : NodeId}
    (h : g.insertGateway owner id direction = .ok (g', n)) :
    n = g.nodes.next ∧ g' = { g with nodes := g.nodes.push {
      id, name := some id, kind := .gateway .exclusive direction, process := owner.process } } := by
  unfold insertGateway insertNode at h
  split at h
  · cases h
  · split at h
    · cases h
    · cases h
      exact ⟨rfl, rfl⟩

theorem refines_insertGateway {owner : Node} {id : String} {direction : GatewayDirection}
    {n : NodeId} (h : g.insertGateway owner id direction = .ok (g', n)) : Refines g g' := by
  obtain ⟨_, rfl⟩ := insertGateway_eq_ok h
  refine ⟨rfl, by simp, fun m hm => ?_, fun m hm hm' => ⟨direction, ?_⟩⟩
  · rw [node, getD_get?_push, if_neg (Arena.ne_next_of_lt hm)]
    rfl
  · have hnext : m = g.nodes.next :=
      (Arena.lt_succ_iff_next.1 (Arena.size_push ▸ hm')).resolve_left (Nat.not_lt.2 hm)
    rw [node, getD_get?_push, if_pos hnext]

theorem connect_eq_ok {gateway process : String} {source target : NodeId}
    (h : g.connect gateway process source target = .ok g') :
    g' = { g with
      flows := g.flows.push {
        id := connectorId gateway, name := none, kind := .sequence, source, target, process }
      nodes := attach g.nodes g.flows.next source target } := by
  unfold connect insertFlow at h
  split at h
  · cases h
  · cases h
    rfl

theorem refines_connect {gateway process : String} {source target : NodeId}
    (h : g.connect gateway process source target = .ok g') : Refines g g' := by
  obtain rfl := connect_eq_ok h
  refine refines_of_nodes rfl (by simp [attach]) fun n => ?_
  unfold node attach
  refine (bare_modify _ _ _ ?_).trans (bare_modify _ _ _ ?_)
  · exact fun _ => rfl
  · exact fun _ => rfl

/-- The steps of `joinIncoming`. -/
theorem joinIncoming_eq_ok {n : NodeId} (h : g.joinIncoming n = .ok g') :
    ∃ g₁ gateway, g.insertGateway (g.node n) (joinId (g.node n).id) .converging = .ok (g₁, gateway) ∧
      ((g₁.node n).incoming.foldl (fun g f => g.redirectTarget f gateway) g₁).connect
        (joinId (g.node n).id) (g.node n).process gateway n = .ok g' := by
  unfold joinIncoming at h
  cases hg : g.insertGateway (g.node n) (joinId (g.node n).id) .converging with
  | error e => simp only [hg] at h; cases h
  | ok r => simp only [hg] at h; exact ⟨r.1, r.2, rfl, h⟩

/-- The steps of `splitOutgoing`. -/
theorem splitOutgoing_eq_ok {n : NodeId} (h : g.splitOutgoing n = .ok g') :
    ∃ g₁ gateway, g.insertGateway (g.node n) (splitId (g.node n).id) .diverging = .ok (g₁, gateway) ∧
      ((g₁.node n).outgoing.foldl (fun g f => g.redirectSource f gateway) g₁).connect
        (splitId (g.node n).id) (g.node n).process n gateway = .ok g' := by
  unfold splitOutgoing at h
  cases hg : g.insertGateway (g.node n) (splitId (g.node n).id) .diverging with
  | error e => simp only [hg] at h; cases h
  | ok r => simp only [hg] at h; exact ⟨r.1, r.2, rfl, h⟩

theorem refines_joinIncoming {n : NodeId} (h : g.joinIncoming n = .ok g') : Refines g g' := by
  obtain ⟨g₁, gateway, hg₁, hconnect⟩ := joinIncoming_eq_ok h
  exact (refines_insertGateway hg₁).trans
    ((refines_foldl (fun g f => refines_redirectTarget g f gateway) _ _).trans
      (refines_connect hconnect))

theorem refines_splitOutgoing {n : NodeId} (h : g.splitOutgoing n = .ok g') : Refines g g' := by
  obtain ⟨g₁, gateway, hg₁, hconnect⟩ := splitOutgoing_eq_ok h
  exact (refines_insertGateway hg₁).trans
    ((refines_foldl (fun g f => refines_redirectSource g f gateway) _ _).trans
      (refines_connect hconnect))

/-! ## All nodes, one after the other -/

/-- The gateways that `normalizeNode` gives to one node. -/
theorem normalizeNode_eq_ok {n : NodeId} (h : g.normalizeNode n = .ok g') :
    ((g.node n).kind.isGateway ∧ g' = g) ∨ ((g.node n).kind.isGateway = false ∧
      ∃ g₁, ((g.node n).incoming.length ≤ 1 ∧ g₁ = g ∨
          1 < (g.node n).incoming.length ∧ g.joinIncoming n = .ok g₁) ∧
        ((g₁.node n).outgoing.length ≤ 1 ∧ g' = g₁ ∨
          1 < (g₁.node n).outgoing.length ∧ g₁.splitOutgoing n = .ok g')) := by
  unfold normalizeNode at h
  split at h
  · rename_i hkind
    cases h
    exact .inl ⟨hkind, rfl⟩
  · rename_i hkind
    refine .inr ⟨by simpa using hkind, ?_⟩
    have hsplit : ∀ g₁ : ProcessGraph, (if 1 < (g₁.node n).outgoing.length then g₁.splitOutgoing n
        else .ok g₁) = .ok g' → (g₁.node n).outgoing.length ≤ 1 ∧ g' = g₁ ∨
          1 < (g₁.node n).outgoing.length ∧ g₁.splitOutgoing n = .ok g' := by
      intro g₁ h
      split at h
      · rename_i hlen
        exact .inr ⟨hlen, h⟩
      · rename_i hlen
        cases h
        exact .inl ⟨Nat.le_of_not_lt hlen, rfl⟩
    split at h
    · rename_i hlen
      cases hjoin : g.joinIncoming n with
      | error e => rw [hjoin] at h; cases h
      | ok g₁ =>
        rw [hjoin] at h
        exact ⟨g₁, .inr ⟨hlen, rfl⟩, hsplit g₁ h⟩
    · rename_i hlen
      exact ⟨g, .inl ⟨Nat.le_of_not_lt hlen, rfl⟩, hsplit g h⟩

/-- A relation that holds for each gateway holds for all that `normalize` adds together. -/
theorem rel_normalize {R : ProcessGraph → ProcessGraph → Prop} (hrefl : ∀ g, R g g)
    (htrans : ∀ g₁ g₂ g₃, R g₁ g₂ → R g₂ g₃ → R g₁ g₃)
    (hjoin : ∀ g n g', index n < g.nodes.size → (g.node n).kind.isGateway = false →
      1 < (g.node n).incoming.length → g.joinIncoming n = .ok g' → R g g')
    (hsplit : ∀ g n g', index n < g.nodes.size → (g.node n).kind.isGateway = false →
      1 < (g.node n).outgoing.length → g.splitOutgoing n = .ok g' → R g g')
    (h : g.normalize = .ok g') : R g g' := by
  -- Every node of the list is there from the start, and gateways only come on top.
  have hnode : ∀ (g : ProcessGraph) n g', index n < g.nodes.size →
      g.normalizeNode n = .ok g' → R g g' ∧ g.nodes.size ≤ g'.nodes.size := by
    intro g n g' hlt h
    rcases normalizeNode_eq_ok h with ⟨_, rfl⟩ | ⟨hkind, g₁, hfirst, hsecond⟩
    · exact ⟨hrefl _, Nat.le_refl _⟩
    · have h₁ : R g g₁ ∧ g.nodes.size ≤ g₁.nodes.size ∧ (g₁.node n).kind.isGateway = false := by
        rcases hfirst with ⟨_, rfl⟩ | ⟨hlen, hfirst⟩
        · exact ⟨hrefl _, Nat.le_refl _, hkind⟩
        · have hrefines := refines_joinIncoming hfirst
          have hsame : (g₁.node n).kind = (g.node n).kind := congrArg (·.kind) (hrefines.node n hlt)
          exact ⟨hjoin g n g₁ hlt hkind hlen hfirst, hrefines.size, hsame ▸ hkind⟩
      rcases hsecond with ⟨_, rfl⟩ | ⟨hlen, hsecond⟩
      · exact ⟨h₁.1, h₁.2.1⟩
      · have hlt₁ := Nat.lt_of_lt_of_le hlt h₁.2.1
        exact ⟨htrans _ _ _ h₁.1 (hsplit g₁ n g' hlt₁ h₁.2.2 hlen hsecond),
          Nat.le_trans h₁.2.1 (refines_splitOutgoing hsecond).size⟩
  have hall : ∀ (l : List NodeId) (g : ProcessGraph), (∀ n ∈ l, index n < g.nodes.size) →
      l.foldlM normalizeNode g = .ok g' → R g g' := by
    intro l
    induction l with
    | nil =>
      intro g _ h
      cases h
      exact hrefl _
    | cons n l ih =>
      intro g hlt h
      rw [List.foldlM_cons] at h
      cases hn : g.normalizeNode n with
      | error e => rw [hn] at h; cases h
      | ok g₁ =>
        rw [hn] at h
        obtain ⟨hrel, hsize⟩ := hnode g n g₁ (hlt n List.mem_cons_self) hn
        exact htrans _ _ _ hrel (ih g₁ (fun m hm =>
          Nat.lt_of_lt_of_le (hlt m (List.mem_cons_of_mem _ hm)) hsize) h)
  exact hall _ _ (fun n => mem_sortedNodes.1) h

theorem refines_normalize (h : g.normalize = .ok g') : Refines g g' :=
  rel_normalize Refines.refl (fun _ _ _ => Refines.trans) (fun _ _ _ _ _ _ => refines_joinIncoming)
    (fun _ _ _ _ _ _ => refines_splitOutgoing) h

end ProcessGraph

end ProcessNet
