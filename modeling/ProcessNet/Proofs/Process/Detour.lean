/-
Gateway form keeps the token game. A gateway in front of a node is a junction of the flows into the node,
one behind a node is a junction of the flows out of it in the game played backwards, and no move tells
these flows apart. So a graph and its gateway form accept the same.
-/
import ProcessNet.Proofs.Game.Junction
import ProcessNet.Proofs.Process.Game
import ProcessNet.Proofs.Process.Normal

namespace ProcessNet.ProcessGraph

open Identifier

variable {g g' : ProcessGraph} {viaIn viaOut : FlowId → FlowId → Prop} {showEvents : Bool}
  {n m : NodeId} {f k : FlowId} {i o i' o' : Multiset FlowId} {label : Option String}

/-! ## Nodes that are kept -/

/-- `g'` is `g` with one more gateway, where old nodes have other flows in the place of theirs. -/
structure Detour (g g' : ProcessGraph) (viaIn viaOut : FlowId → FlowId → Prop) : Prop where
  refines : Refines g g'
  nodeCount : g'.nodes.size = g.nodes.size + 1
  incoming : ∀ m, index m < g.nodes.size → ∀ k,
    k ∈ (g'.node m).incoming ↔ ∃ f ∈ (g.node m).incoming, viaIn f k
  outgoing : ∀ m, index m < g.nodes.size → ∀ k,
    k ∈ (g'.node m).outgoing ↔ ∃ f ∈ (g.node m).outgoing, viaOut f k
  incoming_gateway : ∀ m, index m < g.nodes.size → (g.node m).kind.isGateway → ∀ i,
    Multiset.Rel viaIn (g.node m).incoming i ↔ i = (g'.node m).incoming
  outgoing_gateway : ∀ m, index m < g.nodes.size → (g.node m).kind.isGateway → ∀ o,
    Multiset.Rel viaOut (g.node m).outgoing o ↔ o = (g'.node m).outgoing

theorem Refines.displayName_eq (h : Refines g g') (hm : index m < g.nodes.size) :
    (g'.node m).displayName? = (g.node m).displayName? := by
  have hname : (g'.node m).name = (g.node m).name := congrArg (·.name) (h.node m hm)
  rw [Node.displayName?, hname, Node.displayName?]

/-- Only gateways are new. -/
theorem Refines.lt_of_kind (h : Refines g g') (hm : (g'.node m).kind ≠ .task)
    (hkind : (g'.node m).kind.isGateway = false) : index m < g.nodes.size := by
  refine Nat.lt_of_not_le fun hle => ?_
  obtain ⟨d, hd⟩ := h.gateway m hle (ProcessGraph.lt_of_kind hm)
  rw [hd] at hkind
  cases hkind

namespace Detour

variable (h : Detour g g' viaIn viaOut)
include h

theorem startsOf_eq (process : String) :
    (g'.startsOf process : Multiset NodeId) = g.startsOf process := by
  refine Multiset.coe_eq_coe.2 ((List.perm_ext_iff_of_nodup (nodup_select _) (nodup_select _)).2
    fun m => (mem_startsOf.trans ?_).trans mem_startsOf.symm)
  refine h.refines.node_iff (P := fun x => x.process = process ∧ x.kind.isStart)
    (fun _ => Iff.rfl) fun x d hd hstart => ?_
  rw [hd] at hstart
  cases hstart.2

theorem behind_iff (process : String) : g'.Behind (g'.startsOf process) o' ↔
    ∃ o, g.Behind (g.startsOf process) o ∧ Multiset.Rel viaOut o o' := by
  have hold : ∀ s ∈ (g.startsOf process : Multiset NodeId), ∀ k, k ∈ (g'.node s).outgoing ↔
      Relation.Comp (fun s f => f ∈ (g.node s).outgoing) viaOut s k :=
    fun s hs => h.outgoing s (mem_startsOf.1 hs).1
  unfold Behind
  rw [h.startsOf_eq, ← rel_comp_iff]
  exact ⟨fun hrel => hrel.mono fun s hs k _ => (hold s hs k).1,
    fun hrel => hrel.mono fun s hs k _ => (hold s hs k).2⟩

/-- A move of a node that is kept was one before, with the flows that were there for those it has now. -/
theorem exists_moves (hm : index m < g.nodes.size) (hmoves : g'.Moves showEvents m i' o' label) :
    ∃ i o, g.Moves showEvents m i o label ∧ Multiset.Rel viaIn i i' ∧ Multiset.Rel viaOut o o' := by
  have hkind := (h.refines.id_eq hm).2.2
  have hid := (h.refines.id_eq hm).1
  cases hmoves with
  | step hstep hf hk =>
    obtain ⟨f₀, hf₀, hvf⟩ := (h.incoming m hm _).1 hf
    obtain ⟨k₀, hk₀, hvk⟩ := (h.outgoing m hm _).1 hk
    rw [h.refines.displayName_eq hm]
    exact ⟨{f₀}, {k₀}, .step (hkind ▸ hstep) hf₀ hk₀, rel_singleton_left.2 ⟨_, hvf, rfl⟩,
      rel_singleton_left.2 ⟨_, hvk, rfl⟩⟩
  | @interrupt event trigger _ _ htask hevent hf hk =>
    have he : index event < g.nodes.size :=
      h.refines.lt_of_kind (by rw [hevent]; exact NodeKind.noConfusion) (by rw [hevent]; rfl)
    obtain ⟨f₀, hf₀, hvf⟩ := (h.incoming m hm _).1 hf
    obtain ⟨k₀, hk₀, hvk⟩ := (h.outgoing event he _).1 hk
    rw [(h.refines.id_eq he).2.2, hid] at hevent
    rw [h.refines.displayName_eq he]
    exact ⟨{f₀}, {k₀}, .interrupt (hkind ▸ htask) hevent hf₀ hk₀,
      rel_singleton_left.2 ⟨_, hvf, rfl⟩, rel_singleton_left.2 ⟨_, hvk, rfl⟩⟩
  | synchronize hgateway =>
    have hgateway' : (g.node m).kind.isGateway := by rw [← hkind, hgateway]; rfl
    exact ⟨_, _, .synchronize (hkind ▸ hgateway), (h.incoming_gateway m hm hgateway' _).2 rfl,
      (h.outgoing_gateway m hm hgateway' _).2 rfl⟩
  | choose hgateway hf hk =>
    obtain ⟨f₀, hf₀, hvf⟩ := (h.incoming m hm _).1 hf
    obtain ⟨k₀, hk₀, hvk⟩ := (h.outgoing m hm _).1 hk
    exact ⟨{f₀}, {k₀}, .choose (hkind ▸ hgateway) hf₀ hk₀, rel_singleton_left.2 ⟨_, hvf, rfl⟩,
      rel_singleton_left.2 ⟨_, hvk, rfl⟩⟩
  | enter hsub hf hstarts =>
    obtain ⟨f₀, hf₀, hvf⟩ := (h.incoming m hm _).1 hf
    obtain ⟨o, ho, hvo⟩ := (h.behind_iff _).1 (hid ▸ hstarts)
    exact ⟨{f₀}, o, .enter (hkind ▸ hsub) hf₀ ho, rel_singleton_left.2 ⟨_, hvf, rfl⟩, hvo⟩
  | @leave e _ _ hsub hend hprocess hf hk =>
    have he : index e < g.nodes.size :=
      h.refines.lt_of_kind (by rw [hend]; exact NodeKind.noConfusion) (by rw [hend]; rfl)
    obtain ⟨f₀, hf₀, hvf⟩ := (h.incoming e he _).1 hf
    obtain ⟨k₀, hk₀, hvk⟩ := (h.outgoing m hm _).1 hk
    rw [(h.refines.id_eq he).2.2] at hend
    rw [(h.refines.id_eq he).2.1, hid] at hprocess
    exact ⟨{f₀}, {k₀}, .leave (hkind ▸ hsub) hend hprocess hf₀ hk₀,
      rel_singleton_left.2 ⟨_, hvf, rfl⟩, rel_singleton_left.2 ⟨_, hvk, rfl⟩⟩

/-- Each move there was before is still one, with whatever flows stand in the place of the old ones. -/
theorem moves_of_rel (hm : index m < g.nodes.size)
    (hmoves : g.Moves showEvents m i o label) (hi : Multiset.Rel viaIn i i')
    (ho : Multiset.Rel viaOut o o') : g'.Moves showEvents m i' o' label := by
  have hkind := (h.refines.id_eq hm).2.2
  have hid := (h.refines.id_eq hm).1
  -- each kind of move has its flows told by the node, so the flows that stand for them are told as well
  cases hmoves with
  | step hstep hf hk =>
    obtain ⟨f', hvf, rfl⟩ := rel_singleton_left.1 hi
    obtain ⟨k', hvk, rfl⟩ := rel_singleton_left.1 ho
    rw [← h.refines.displayName_eq hm]
    exact .step (hkind ▸ hstep) ((h.incoming m hm _).2 ⟨_, hf, hvf⟩)
      ((h.outgoing m hm _).2 ⟨_, hk, hvk⟩)
  | @interrupt event trigger _ _ htask hevent hf hk =>
    have he : index event < g.nodes.size :=
      ProcessGraph.lt_of_kind (by rw [hevent]; exact NodeKind.noConfusion)
    obtain ⟨f', hvf, rfl⟩ := rel_singleton_left.1 hi
    obtain ⟨k', hvk, rfl⟩ := rel_singleton_left.1 ho
    rw [← (h.refines.id_eq he).2.2, ← hid] at hevent
    rw [← h.refines.displayName_eq he]
    exact .interrupt (hkind ▸ htask) hevent ((h.incoming m hm _).2 ⟨_, hf, hvf⟩)
      ((h.outgoing event he _).2 ⟨_, hk, hvk⟩)
  | synchronize hgateway =>
    have hgateway' : (g.node m).kind.isGateway := by rw [hgateway]; rfl
    rw [(h.incoming_gateway m hm hgateway' _).1 hi, (h.outgoing_gateway m hm hgateway' _).1 ho]
    exact .synchronize (hkind ▸ hgateway)
  | choose hgateway hf hk =>
    obtain ⟨f', hvf, rfl⟩ := rel_singleton_left.1 hi
    obtain ⟨k', hvk, rfl⟩ := rel_singleton_left.1 ho
    exact .choose (hkind ▸ hgateway) ((h.incoming m hm _).2 ⟨_, hf, hvf⟩)
      ((h.outgoing m hm _).2 ⟨_, hk, hvk⟩)
  | enter hsub hf hstarts =>
    obtain ⟨f', hvf, rfl⟩ := rel_singleton_left.1 hi
    exact .enter (hkind ▸ hsub) ((h.incoming m hm _).2 ⟨_, hf, hvf⟩)
      ((h.behind_iff _).2 ⟨_, hid ▸ hstarts, ho⟩)
  | @leave e _ _ hsub hend hprocess hf hk =>
    have he : index e < g.nodes.size :=
      ProcessGraph.lt_of_kind (by rw [hend]; exact NodeKind.noConfusion)
    obtain ⟨f', hvf, rfl⟩ := rel_singleton_left.1 hi
    obtain ⟨k', hvk, rfl⟩ := rel_singleton_left.1 ho
    rw [← (h.refines.id_eq he).2.2] at hend
    rw [← (h.refines.id_eq he).2.1, ← hid] at hprocess
    exact .leave (hkind ▸ hsub) hend hprocess ((h.incoming e he _).2 ⟨_, hf, hvf⟩)
      ((h.outgoing m hm _).2 ⟨_, hk, hvk⟩)

/-- The moves of the nodes that are kept, with the flows that stand in the place of the old ones. -/
theorem moves_iff (hm : index m < g.nodes.size) : g'.Moves showEvents m i' o' label ↔
    ∃ i o, g.Moves showEvents m i o label ∧ Multiset.Rel viaIn i i' ∧ Multiset.Rel viaOut o o' := by
  constructor
  · exact h.exists_moves hm
  · rintro ⟨i, o, hmoves, hi, ho⟩
    exact h.moves_of_rel hm hmoves hi ho

theorem start_iff : (g'.game showEvents).start o' ↔
    ∃ o, (g.game showEvents).start o ∧ Multiset.Rel viaOut o o' := by
  change g'.Behind (g'.startsOf g'.processId) o' ↔ _
  rw [h.behind_iff, h.refines.processId]
  rfl

theorem entersEnd_iff : g'.EntersEnd k ↔ ∃ f, g.EntersEnd f ∧ viaIn f k := by
  constructor
  · rintro ⟨e, hend, hprocess, hk⟩
    have he : index e < g.nodes.size :=
      h.refines.lt_of_kind (by rw [hend]; exact NodeKind.noConfusion) (by rw [hend]; rfl)
    obtain ⟨f, hf, hvia⟩ := (h.incoming e he k).1 hk
    rw [(h.refines.id_eq he).2.2] at hend
    rw [(h.refines.id_eq he).2.1, h.refines.processId] at hprocess
    exact ⟨f, ⟨e, hend, hprocess, hf⟩, hvia⟩
  · rintro ⟨f, ⟨e, hend, hprocess, hf⟩, hvia⟩
    have he : index e < g.nodes.size :=
      ProcessGraph.lt_of_kind (by rw [hend]; exact NodeKind.noConfusion)
    rw [← (h.refines.id_eq he).2.2] at hend
    rw [← (h.refines.id_eq he).2.1, ← h.refines.processId] at hprocess
    exact ⟨e, hend, hprocess, (h.incoming e he k).2 ⟨f, hf, hvia⟩⟩

theorem finish_iff : (g'.game showEvents).finish i' ↔
    ∃ i, (g.game showEvents).finish i ∧ Multiset.Rel viaIn i i' := by
  constructor
  · rintro ⟨k, hk, rfl⟩
    obtain ⟨f, hf, hvia⟩ := h.entersEnd_iff.1 hk
    exact ⟨{f}, ⟨f, hf, rfl⟩, rel_singleton_left.2 ⟨k, hvia, rfl⟩⟩
  · rintro ⟨_, ⟨f, hf, rfl⟩, hrel⟩
    obtain ⟨k, hvia, rfl⟩ := rel_singleton_left.1 hrel
    exact ⟨k, h.entersEnd_iff.2 ⟨f, hf, hvia⟩, rfl⟩

end Detour

/-! ## Branches that no move tells apart -/

open Game (Via)

section Branches

variable {F : NodeId → List FlowId} {c f₁ : FlowId} {i₁ : Multiset FlowId}
  (hone : ∀ f m n, f ∈ F m → f ∈ F n → m = n) (hfresh : ∀ m, c ∉ F m)
include hone hfresh

theorem mem_of_via (hf : f ∈ F m) (hk : Via (· ∈ F n) c f k)
    (hk₁ : Via (· ∈ F n) c f₁ k) : f₁ ∈ F m := by
  rcases hk with ⟨hbranch, rfl⟩ | ⟨_, hne, rfl⟩
  · rcases hk₁ with ⟨hbranch₁, _⟩ | ⟨_, hne, rfl⟩
    · exact hone f m n hf hbranch ▸ hbranch₁
    · exact absurd rfl hne
  · rcases hk₁ with ⟨_, rfl⟩ | ⟨_, _, rfl⟩
    · exact absurd rfl hne
    · exact hf

/-- The flows at another node are none of the branches. -/
theorem rel_via_iff (hmn : m ≠ n) :
    Multiset.Rel (Via (· ∈ F n) c) (F m) i ↔ i = F m := by
  have hvia : ∀ f ∈ (F m : Multiset FlowId), ∀ k, Via (· ∈ F n) c f k ↔ f = k := by
    intro f hf k
    constructor
    · rintro (⟨hbranch, _⟩ | ⟨_, _, rfl⟩)
      · exact absurd (hone f m n hf hbranch) hmn
      · rfl
    · rintro rfl
      exact .inr ⟨fun hbranch => hmn (hone f m n hf hbranch), fun he => hfresh m (he ▸ hf), rfl⟩
  rw [eq_comm, ← Multiset.rel_eq]
  exact ⟨fun h => h.mono fun f hf k _ => (hvia f hf k).1,
    fun h => h.mono fun f hf k _ => (hvia f hf k).2⟩

theorem eq_of_rel_via (hmn : m ≠ n) (hi : Multiset.Rel (Via (· ∈ F n) c) (F m) i)
    (hi₁ : Multiset.Rel (Via (· ∈ F n) c) i₁ i) : i₁ = F m := by
  obtain rfl := (rel_via_iff hone hfresh hmn).1 hi
  refine Multiset.rel_eq.1 (hi₁.mono fun f _ k hk hvia => ?_)
  rcases hvia with ⟨_, rfl⟩ | ⟨_, _, rfl⟩
  · exact absurd hk (hfresh m)
  · rfl

end Branches

theorem Linked.eq_of_incoming (hg : g.Linked) (f : FlowId) (m n : NodeId)
    (hm : f ∈ (g.node m).incoming) (hn : f ∈ (g.node n).incoming) : m = n :=
  ((hg.mem_incoming m f).1 hm).2.symm.trans ((hg.mem_incoming n f).1 hn).2

theorem Linked.eq_of_outgoing (hg : g.Linked) (f : FlowId) (m n : NodeId)
    (hm : f ∈ (g.node m).outgoing) (hn : f ∈ (g.node n).outgoing) : m = n :=
  ((hg.mem_outgoing m f).1 hm).2.symm.trans ((hg.mem_outgoing n f).1 hn).2

theorem Linked.fresh_incoming (hg : g.Linked) (m : NodeId) : g.flows.next ∉ (g.node m).incoming :=
  fun h => Arena.ne_next_of_lt ((hg.mem_incoming m _).1 h).1 rfl

theorem Linked.fresh_outgoing (hg : g.Linked) (m : NodeId) : g.flows.next ∉ (g.node m).outgoing :=
  fun h => Arena.ne_next_of_lt ((hg.mem_outgoing m _).1 h).1 rfl

theorem Linked.fresh_behind (hg : g.Linked) {nodes : List NodeId} (h : g.Behind nodes o) :
    g.flows.next ∉ o := by
  intro hmem
  obtain ⟨s, _, hs⟩ := Multiset.exists_mem_of_rel_of_mem (Multiset.rel_flip.2 h) hmem
  exact hg.fresh_outgoing s hs

/-- A token on one flow into a node is as good as a token on another. -/
theorem Moves.of_rel_incoming (hg : g.Linked) (hn : (g.node n).kind.isGateway = false)
    (h : g.Moves showEvents m i o label) {i₁ j : Multiset FlowId}
    (hi : Multiset.Rel (Via (· ∈ (g.node n).incoming) g.flows.next) i j)
    (hi₁ : Multiset.Rel (Via (· ∈ (g.node n).incoming) g.flows.next) i₁ j) :
    g.Moves showEvents m i₁ o label := by
  have hsingle : ∀ {e f}, f ∈ (g.node e).incoming → i = {f} →
      ∃ f₁ ∈ (g.node e).incoming, i₁ = {f₁} := by
    rintro e f hf rfl
    obtain ⟨k, hk, rfl⟩ := rel_singleton_left.1 hi
    obtain ⟨f₁, hk₁, rfl⟩ := rel_singleton_right.1 hi₁
    exact ⟨f₁, mem_of_via hg.eq_of_incoming hg.fresh_incoming hf hk hk₁, rfl⟩
  cases h with
  | step hstep hf hk =>
    obtain ⟨f₁, hf₁, rfl⟩ := hsingle hf rfl
    exact .step hstep hf₁ hk
  | interrupt htask hevent hf hk =>
    obtain ⟨f₁, hf₁, rfl⟩ := hsingle hf rfl
    exact .interrupt htask hevent hf₁ hk
  | synchronize hgateway =>
    have hmn : m ≠ n := by
      rintro rfl
      rw [hgateway] at hn
      cases hn
    obtain rfl := eq_of_rel_via hg.eq_of_incoming hg.fresh_incoming hmn hi hi₁
    exact .synchronize hgateway
  | choose hgateway hf hk =>
    obtain ⟨f₁, hf₁, rfl⟩ := hsingle hf rfl
    exact .choose hgateway hf₁ hk
  | enter hsub hf hstarts =>
    obtain ⟨f₁, hf₁, rfl⟩ := hsingle hf rfl
    exact .enter hsub hf₁ hstarts
  | leave hsub hend hprocess hf hk =>
    obtain ⟨f₁, hf₁, rfl⟩ := hsingle hf rfl
    exact .leave hsub hend hprocess hf₁ hk

theorem Linked.behind_of_rel (hg : g.Linked) {nodes : List NodeId} {o₁ j : Multiset FlowId}
    (h : g.Behind nodes o)
    (ho : Multiset.Rel (Via (· ∈ (g.node n).outgoing) g.flows.next) o j)
    (ho₁ : Multiset.Rel (Via (· ∈ (g.node n).outgoing) g.flows.next) o₁ j) : g.Behind nodes o₁ := by
  have hcomp := rel_comp_iff.2 ⟨j, rel_comp_iff.2 ⟨o, h, ho⟩, Multiset.rel_flip.2 ho₁⟩
  refine hcomp.mono fun s _ f₁ _ hs => ?_
  obtain ⟨k, ⟨f, hf, hk⟩, hk₁⟩ := hs
  exact mem_of_via hg.eq_of_outgoing hg.fresh_outgoing hf hk hk₁

/-- A token on one flow out of a node could have been put on another. -/
theorem Moves.of_rel_outgoing (hg : g.Linked) (hn : (g.node n).kind.isGateway = false)
    (h : g.Moves showEvents m i o label) {o₁ j : Multiset FlowId}
    (ho : Multiset.Rel (Via (· ∈ (g.node n).outgoing) g.flows.next) o j)
    (ho₁ : Multiset.Rel (Via (· ∈ (g.node n).outgoing) g.flows.next) o₁ j) :
    g.Moves showEvents m i o₁ label := by
  have hsingle : ∀ {e k}, k ∈ (g.node e).outgoing → o = {k} →
      ∃ k₁ ∈ (g.node e).outgoing, o₁ = {k₁} := by
    rintro e k hk rfl
    obtain ⟨l, hl, rfl⟩ := rel_singleton_left.1 ho
    obtain ⟨k₁, hl₁, rfl⟩ := rel_singleton_right.1 ho₁
    exact ⟨k₁, mem_of_via hg.eq_of_outgoing hg.fresh_outgoing hk hl hl₁, rfl⟩
  cases h with
  | step hstep hf hk =>
    obtain ⟨k₁, hk₁, rfl⟩ := hsingle hk rfl
    exact .step hstep hf hk₁
  | interrupt htask hevent hf hk =>
    obtain ⟨k₁, hk₁, rfl⟩ := hsingle hk rfl
    exact .interrupt htask hevent hf hk₁
  | synchronize hgateway =>
    have hmn : m ≠ n := by
      rintro rfl
      rw [hgateway] at hn
      cases hn
    obtain rfl := eq_of_rel_via hg.eq_of_outgoing hg.fresh_outgoing hmn ho ho₁
    exact .synchronize hgateway
  | choose hgateway hf hk =>
    obtain ⟨k₁, hk₁, rfl⟩ := hsingle hk rfl
    exact .choose hgateway hf hk₁
  | enter hsub hf hstarts => exact .enter hsub hf (hg.behind_of_rel hstarts ho ho₁)
  | leave hsub hend hprocess hf hk =>
    obtain ⟨k₁, hk₁, rfl⟩ := hsingle hk rfl
    exact .leave hsub hend hprocess hf hk₁

theorem Moves.fresh (hg : g.Linked) (h : g.Moves showEvents m i o label) :
    g.flows.next ∉ i ∧ g.flows.next ∉ o := by
  have hin : ∀ {e f}, f ∈ (g.node e).incoming → g.flows.next ∉ ({f} : Multiset FlowId) :=
    fun hf he => hg.fresh_incoming _ (Multiset.mem_singleton.1 he ▸ hf)
  have hout : ∀ {e f}, f ∈ (g.node e).outgoing → g.flows.next ∉ ({f} : Multiset FlowId) :=
    fun hf he => hg.fresh_outgoing _ (Multiset.mem_singleton.1 he ▸ hf)
  cases h with
  | step _ hf hk | interrupt _ _ hf hk | choose _ hf hk | leave _ _ _ hf hk =>
    exact ⟨hin hf, hout hk⟩
  | synchronize => exact ⟨hg.fresh_incoming m, hg.fresh_outgoing m⟩
  | enter _ hf hstarts => exact ⟨hin hf, hg.fresh_behind hstarts⟩

theorem moves_exclusive_iff {direction : GatewayDirection}
    (hm : (g.node m).kind = .gateway .exclusive direction) : g.Moves showEvents m i o label ↔
      ∃ f ∈ (g.node m).incoming, ∃ k ∈ (g.node m).outgoing, i = {f} ∧ o = {k} ∧ label = none := by
  constructor
  · intro h
    cases h with
    | choose _ hf hk => exact ⟨_, hf, _, hk, rfl, rfl, rfl⟩
    | step hstep | interrupt hstep | synchronize hstep | enter hstep | leave hstep =>
      rw [hm] at hstep
      cases hstep
  · rintro ⟨f, hf, k, hk, rfl, rfl, rfl⟩
    exact .choose hm hf hk

/-! ## A gateway in front of a node -/

section Join

variable (hg : g.Linked) (hn : index n < g.nodes.size) (h : g.joinIncoming n = .ok g')
include hg hn h

theorem mem_incoming_of_join : k ∈ (g'.node n).incoming ↔ k = g.flows.next := by
  have hr := rerouted_joinIncoming hg hn h
  rw [hr.linked.mem_incoming, hr.flowCount, Arena.lt_succ_iff_next]
  constructor
  · rintro ⟨hk | hk, htarget⟩
    · rw [hr.flow k hk] at htarget
      exact absurd htarget (target_leadInto_ne (Arena.ne_next_of_lt hn))
    · exact hk
  · rintro rfl
    rw [hr.connector]
    exact ⟨.inr rfl, rfl⟩

/-- Into the gateway come the flows that came into the node. -/
theorem mem_incoming_gateway_of_join :
    k ∈ (g'.node g.nodes.next).incoming ↔ k ∈ (g.node n).incoming := by
  have hr := rerouted_joinIncoming hg hn h
  rw [hr.linked.mem_incoming, hr.flowCount, Arena.lt_succ_iff_next, hg.mem_incoming]
  constructor
  · rintro ⟨hk | rfl, htarget⟩
    · refine ⟨hk, ?_⟩
      rw [hr.flow k hk, target_leadInto] at htarget
      split at htarget
      · assumption
      · exact absurd htarget (Arena.ne_next_of_lt (hg.target k hk))
    · rw [hr.connector] at htarget
      exact absurd htarget (Arena.ne_next_of_lt hn)
  · rintro ⟨hk, htarget⟩
    refine ⟨.inl hk, ?_⟩
    rw [hr.flow k hk, target_leadInto, if_pos htarget]

theorem mem_outgoing_gateway_of_join :
    k ∈ (g'.node g.nodes.next).outgoing ↔ k = g.flows.next := by
  have hr := rerouted_joinIncoming hg hn h
  rw [hr.linked.mem_outgoing, hr.flowCount, Arena.lt_succ_iff_next]
  constructor
  · rintro ⟨hk | hk, hsource⟩
    · rw [hr.flow k hk, source_leadInto] at hsource
      exact absurd hsource (Arena.ne_next_of_lt (hg.source k hk))
    · exact hk
  · rintro rfl
    rw [hr.connector]
    exact ⟨.inr rfl, rfl⟩

variable (hkind : (g.node n).kind.isGateway = false) (hsome : (g.node n).incoming ≠ [])
include hkind hsome

theorem detour_joinIncoming : Detour g g' (Via (· ∈ (g.node n).incoming) g.flows.next) Eq := by
  have hr := rerouted_joinIncoming hg hn h
  have hout := fun m => perm_outgoing_of_join (m := m) hg hn h
  have hin := fun m => perm_incoming_of_join (m := m) hg hn h
  refine ⟨refines_joinIncoming h, hr.nodeCount, fun m hm k => ?_, fun m hm k => ?_,
    fun m hm hgateway i => ?_, fun m hm hgateway o => ?_⟩
  · by_cases hmn : m = n
    · subst hmn
      rw [mem_incoming_of_join hg hn h]
      obtain ⟨f, hf⟩ := List.exists_mem_of_ne_nil _ hsome
      constructor
      · rintro rfl
        exact ⟨f, hf, .inl ⟨hf, rfl⟩⟩
      · rintro ⟨f, hf, ⟨_, rfl⟩ | ⟨hnot, _⟩⟩
        · rfl
        · exact absurd hf hnot
    · rw [(hin m hm hmn).mem_iff]
      constructor
      · exact fun hk => ⟨k, hk, .inr ⟨fun hbranch => hmn (hg.eq_of_incoming k m n hk hbranch),
          fun he => hg.fresh_incoming m (he ▸ hk), rfl⟩⟩
      · rintro ⟨f, hf, ⟨hbranch, _⟩ | ⟨_, _, rfl⟩⟩
        · exact absurd (hg.eq_of_incoming f m n hf hbranch) hmn
        · exact hf
  · rw [(hout m hm).mem_iff]
    simp
  · have hmn : m ≠ n := by
      rintro rfl
      rw [hkind] at hgateway
      cases hgateway
    rw [rel_via_iff (F := fun m => (g.node m).incoming) hg.eq_of_incoming hg.fresh_incoming hmn,
      Multiset.coe_eq_coe.2 (hin m hm hmn)]
  · rw [Multiset.rel_eq, eq_comm, Multiset.coe_eq_coe.2 (hout m hm)]

/-- The gateway that `joinIncoming` puts in front of a node is a junction of the flows into it. -/
theorem joins_joinIncoming : Game.Joins (g.game showEvents) (g'.game showEvents)
    (· ∈ (g.node n).incoming) g.flows.next := by
  have hd := detour_joinIncoming hg hn h hkind hsome
  have hr := rerouted_joinIncoming hg hn h
  have hgateway : (g'.node g.nodes.next).kind = .gateway .exclusive .converging := by
    have hbare := congrArg Node.kind (hr.bare g.nodes.next)
    rw [if_pos rfl] at hbare
    exact hbare
  refine {
    move_iff := fun ins outs label => ?move_iff
    start_iff := fun m => ?start_iff
    finish_iff := fun m => hd.finish_iff
    move_of_rel := ?move_of_rel
    finish_of_rel := ?finish_of_rel
    not_branch := hg.fresh_incoming n
    fresh_move := ?fresh_move
    fresh_start := fun m hm => hg.fresh_behind hm
    fresh_finish := ?fresh_finish }
  -- a move is one of the new gateway, or one of a node that was there
  case move_iff =>
    constructor
    · rintro ⟨m, hmoves⟩
      have hm := hmoves.lt
      rw [hr.nodeCount, Arena.lt_succ_iff_next] at hm
      rcases hm with hm | rfl
      · obtain ⟨ins₀, outs₀, hmoves₀, hins, houts⟩ := (hd.moves_iff hm).1 hmoves
        exact .inr ⟨ins₀, ⟨m, Multiset.rel_eq.1 houts ▸ hmoves₀⟩, hins⟩
      · obtain ⟨f, hf, k, hk, rfl, rfl, rfl⟩ := (moves_exclusive_iff hgateway).1 hmoves
        rw [mem_incoming_gateway_of_join hg hn h] at hf
        rw [mem_outgoing_gateway_of_join hg hn h] at hk
        exact .inl ⟨f, hf, rfl, by rw [hk], rfl⟩
    · rintro (⟨f, hf, rfl, rfl, rfl⟩ | ⟨ins₀, ⟨m, hmoves⟩, hins⟩)
      · exact ⟨_, (moves_exclusive_iff hgateway).2
          ⟨f, (mem_incoming_gateway_of_join hg hn h).2 hf, _,
            (mem_outgoing_gateway_of_join hg hn h).2 rfl, rfl, rfl, rfl⟩⟩
      · exact ⟨m, (hd.moves_iff hmoves.lt).2 ⟨ins₀, outs, hmoves, hins, Multiset.rel_eq_refl⟩⟩
  case start_iff =>
    rw [hd.start_iff]
    simp only [Multiset.rel_eq, exists_eq_right]
  case move_of_rel =>
    rintro ins₀ ins₁ ins outs label ⟨m, hmoves⟩ hins₀ hins₁
    exact ⟨m, hmoves.of_rel_incoming hg hkind hins₀ hins₁⟩
  case finish_of_rel =>
    rintro _ m₁ m ⟨f, ⟨e, hend, hprocess, hf⟩, rfl⟩ hm₀ hm₁
    obtain ⟨k, hk, rfl⟩ := rel_singleton_left.1 hm₀
    obtain ⟨f₁, hk₁, rfl⟩ := rel_singleton_right.1 hm₁
    exact ⟨f₁, ⟨e, hend, hprocess, mem_of_via (F := fun m => (g.node m).incoming)
      hg.eq_of_incoming hg.fresh_incoming hf hk hk₁⟩, rfl⟩
  case fresh_move =>
    rintro ins outs label ⟨m, hmoves⟩
    exact hmoves.fresh hg
  case fresh_finish =>
    rintro _ ⟨f, ⟨e, _, _, hf⟩, rfl⟩ he
    exact hg.fresh_incoming e (Multiset.mem_singleton.1 he ▸ hf)

end Join

/-! ## A gateway behind a node -/

section Split

variable (hg : g.Linked) (hn : index n < g.nodes.size) (h : g.splitOutgoing n = .ok g')
include hg hn h

theorem mem_outgoing_of_split : k ∈ (g'.node n).outgoing ↔ k = g.flows.next := by
  have hr := rerouted_splitOutgoing hg hn h
  rw [hr.linked.mem_outgoing, hr.flowCount, Arena.lt_succ_iff_next]
  constructor
  · rintro ⟨hk | hk, hsource⟩
    · rw [hr.flow k hk] at hsource
      exact absurd hsource (source_leadOutOf_ne (Arena.ne_next_of_lt hn))
    · exact hk
  · rintro rfl
    rw [hr.connector]
    exact ⟨.inr rfl, rfl⟩

/-- Out of the gateway go the flows that went out of the node. -/
theorem mem_outgoing_gateway_of_split :
    k ∈ (g'.node g.nodes.next).outgoing ↔ k ∈ (g.node n).outgoing := by
  have hr := rerouted_splitOutgoing hg hn h
  rw [hr.linked.mem_outgoing, hr.flowCount, Arena.lt_succ_iff_next, hg.mem_outgoing]
  constructor
  · rintro ⟨hk | rfl, hsource⟩
    · refine ⟨hk, ?_⟩
      rw [hr.flow k hk, source_leadOutOf] at hsource
      split at hsource
      · assumption
      · exact absurd hsource (Arena.ne_next_of_lt (hg.source k hk))
    · rw [hr.connector] at hsource
      exact absurd hsource (Arena.ne_next_of_lt hn)
  · rintro ⟨hk, hsource⟩
    refine ⟨.inl hk, ?_⟩
    rw [hr.flow k hk, source_leadOutOf, if_pos hsource]

theorem mem_incoming_gateway_of_split :
    k ∈ (g'.node g.nodes.next).incoming ↔ k = g.flows.next := by
  have hr := rerouted_splitOutgoing hg hn h
  rw [hr.linked.mem_incoming, hr.flowCount, Arena.lt_succ_iff_next]
  constructor
  · rintro ⟨hk | hk, htarget⟩
    · rw [hr.flow k hk, target_leadOutOf] at htarget
      exact absurd htarget (Arena.ne_next_of_lt (hg.target k hk))
    · exact hk
  · rintro rfl
    rw [hr.connector]
    exact ⟨.inr rfl, rfl⟩

variable (hkind : (g.node n).kind.isGateway = false) (hsome : (g.node n).outgoing ≠ [])
include hkind hsome

theorem detour_splitOutgoing : Detour g g' Eq (Via (· ∈ (g.node n).outgoing) g.flows.next) := by
  have hr := rerouted_splitOutgoing hg hn h
  have hin := fun m => perm_incoming_of_split (m := m) hg hn h
  have hout := fun m => perm_outgoing_of_split (m := m) hg hn h
  refine ⟨refines_splitOutgoing h, hr.nodeCount, fun m hm k => ?_, fun m hm k => ?_,
    fun m hm hgateway i => ?_, fun m hm hgateway o => ?_⟩
  · rw [(hin m hm).mem_iff]
    simp
  · by_cases hmn : m = n
    · subst hmn
      rw [mem_outgoing_of_split hg hn h]
      obtain ⟨f, hf⟩ := List.exists_mem_of_ne_nil _ hsome
      constructor
      · rintro rfl
        exact ⟨f, hf, .inl ⟨hf, rfl⟩⟩
      · rintro ⟨f, hf, ⟨_, rfl⟩ | ⟨hnot, _⟩⟩
        · rfl
        · exact absurd hf hnot
    · rw [(hout m hm hmn).mem_iff]
      constructor
      · exact fun hk => ⟨k, hk, .inr ⟨fun hbranch => hmn (hg.eq_of_outgoing k m n hk hbranch),
          fun he => hg.fresh_outgoing m (he ▸ hk), rfl⟩⟩
      · rintro ⟨f, hf, ⟨hbranch, _⟩ | ⟨_, _, rfl⟩⟩
        · exact absurd (hg.eq_of_outgoing f m n hf hbranch) hmn
        · exact hf
  · rw [Multiset.rel_eq, eq_comm, Multiset.coe_eq_coe.2 (hin m hm)]
  · have hmn : m ≠ n := by
      rintro rfl
      rw [hkind] at hgateway
      cases hgateway
    rw [rel_via_iff (F := fun m => (g.node m).outgoing) hg.eq_of_outgoing hg.fresh_outgoing hmn,
      Multiset.coe_eq_coe.2 (hout m hm hmn)]

/-- The gateway that `splitOutgoing` puts behind a node is a junction of the flows out of it, backwards. -/
theorem joins_splitOutgoing : Game.Joins (g.game showEvents).reverse (g'.game showEvents).reverse
    (· ∈ (g.node n).outgoing) g.flows.next := by
  have hd := detour_splitOutgoing hg hn h hkind hsome
  have hr := rerouted_splitOutgoing hg hn h
  have hgateway : (g'.node g.nodes.next).kind = .gateway .exclusive .diverging := by
    have hbare := congrArg Node.kind (hr.bare g.nodes.next)
    rw [if_pos rfl] at hbare
    exact hbare
  refine {
    move_iff := fun outs ins label => ?move_iff
    start_iff := fun m => ?start_iff
    finish_iff := fun m => (hd.start_iff : (g'.game showEvents).start m ↔ _)
    move_of_rel := ?move_of_rel
    finish_of_rel := ?finish_of_rel
    not_branch := hg.fresh_outgoing n
    fresh_move := ?fresh_move
    fresh_start := ?fresh_start
    fresh_finish := fun m hm => hg.fresh_behind hm }
  case move_iff =>
    constructor
    · rintro ⟨m, hmoves⟩
      have hm := hmoves.lt
      rw [hr.nodeCount, Arena.lt_succ_iff_next] at hm
      rcases hm with hm | rfl
      · obtain ⟨ins₀, outs₀, hmoves₀, hins, houts⟩ := (hd.moves_iff hm).1 hmoves
        exact .inr ⟨outs₀, ⟨m, Multiset.rel_eq.1 hins ▸ hmoves₀⟩, houts⟩
      · obtain ⟨f, hf, k, hk, rfl, rfl, rfl⟩ := (moves_exclusive_iff hgateway).1 hmoves
        rw [mem_incoming_gateway_of_split hg hn h] at hf
        rw [mem_outgoing_gateway_of_split hg hn h] at hk
        exact .inl ⟨k, hk, rfl, by rw [hf], rfl⟩
    · rintro (⟨k, hk, rfl, rfl, rfl⟩ | ⟨outs₀, ⟨m, hmoves⟩, houts⟩)
      · exact ⟨_, (moves_exclusive_iff hgateway).2
          ⟨_, (mem_incoming_gateway_of_split hg hn h).2 rfl, k,
            (mem_outgoing_gateway_of_split hg hn h).2 hk, rfl, rfl, rfl⟩⟩
      · exact ⟨m, (hd.moves_iff hmoves.lt).2 ⟨ins, outs₀, hmoves, Multiset.rel_eq_refl, houts⟩⟩
  case start_iff =>
    change (g'.game showEvents).finish m ↔ (g.game showEvents).finish m
    rw [hd.finish_iff]
    simp only [Multiset.rel_eq, exists_eq_right]
  case move_of_rel =>
    rintro outs₀ outs₁ outs ins label ⟨m, hmoves⟩ houts₀ houts₁
    exact ⟨m, hmoves.of_rel_outgoing hg hkind houts₀ houts₁⟩
  case finish_of_rel =>
    exact fun m₀ m₁ m hm₀ hrel₀ hrel₁ => hg.behind_of_rel hm₀ hrel₀ hrel₁
  case fresh_move =>
    rintro outs ins label ⟨m, hmoves⟩
    exact (hmoves.fresh hg).symm
  case fresh_start =>
    rintro _ ⟨f, ⟨e, _, _, hf⟩, rfl⟩ he
    exact hg.fresh_incoming e (Multiset.mem_singleton.1 he ▸ hf)

end Split

/-- What `normalize` makes of a graph accepts what the graph accepts. -/
theorem accepts_normalize (hg : g.Linked) (h : g.normalize = .ok g') (w : List String) :
    (g'.game showEvents).Accepts w ↔ (g.game showEvents).Accepts w := by
  have hrel : ∀ (g : ProcessGraph) n g', index n < g.nodes.size →
      (g.node n).kind.isGateway = false → 1 < (g.node n).incoming.length →
      g.joinIncoming n = .ok g' → g.Linked →
      g'.Linked ∧ ((g'.game showEvents).Accepts w ↔ (g.game showEvents).Accepts w) := by
    intro g n g' hn hkind hlen h hg
    exact ⟨(rerouted_joinIncoming hg hn h).linked,
      (joins_joinIncoming hg hn h hkind (List.ne_nil_of_length_pos (by omega))).accepts_iff w⟩
  have hrel' : ∀ (g : ProcessGraph) n g', index n < g.nodes.size →
      (g.node n).kind.isGateway = false → 1 < (g.node n).outgoing.length →
      g.splitOutgoing n = .ok g' → g.Linked →
      g'.Linked ∧ ((g'.game showEvents).Accepts w ↔ (g.game showEvents).Accepts w) := by
    intro g n g' hn hkind hlen h hg
    exact ⟨(rerouted_splitOutgoing hg hn h).linked,
      (joins_splitOutgoing hg hn h hkind (List.ne_nil_of_length_pos (by omega))).accepts_iff_of_reverse
        w⟩
  refine (rel_normalize (R := fun g g' => g.Linked → g'.Linked ∧
    ((g'.game showEvents).Accepts w ↔ (g.game showEvents).Accepts w)) (fun _ hg => ⟨hg, Iff.rfl⟩)
    (fun _ _ _ h₁ h₂ hg => ?_) hrel hrel' h hg).2
  obtain ⟨hg₁, he₁⟩ := h₁ hg
  obtain ⟨hg₂, he₂⟩ := h₂ hg₁
  exact ⟨hg₂, he₂.trans he₁⟩

end ProcessNet.ProcessGraph
