/-
Legible processes. Where no id holds the separator or begins with a character of it, and none is that of an
exclusive gateway or a subprocess with a number behind it, each name of a place or a transition tells what
it was made for. So no two of them agree, and a conversion never meets a name that is taken.
-/
import ProcessNet.Proofs.Conversion.Drawn
import ProcessNet.Proofs.Conversion.Evaluation
import ProcessNet.Proofs.Conversion.Names
import ProcessNet.Proofs.Conversion.Owners
import ProcessNet.Proofs.Process.Attached

namespace ProcessNet

open Identifier Construction

/-- Nodes whose steps bear numbers. -/
def NodeKind.isNumbered : NodeKind → Bool
  | .gateway .exclusive _ | .subprocess _ => true
  | _ => false

/-- Exclusive gateways that are said to split or to join, as those are that `normalize` adds. Each of
their steps bears a number. -/
def NodeKind.isDirected : NodeKind → Bool
  | .gateway .exclusive direction => direction ≠ .unspecified
  | _ => false

namespace ProcessGraph

variable {g g' g'' : ProcessGraph} {n m : NodeId} {s s' : Step} {showEvents : Bool}

/-- The ids of the graph can be parts of names. -/
structure Readable (g : ProcessGraph) : Prop where
  process : Separable g.processId
  node : ∀ n, index n < g.nodes.size → Separable (g.node n).id
  flow : ∀ f, index f < g.flows.size → Separable (g.flow f).id

/-- An id that may come with a number behind it: that of an exclusive gateway or a subprocess, or of a gateway
that another node may get. -/
def BearsNumbers (g : ProcessGraph) (id : String) : Prop :=
  ∃ m, index m < g.nodes.size ∧ ((g.node m).kind.isNumbered ∧ (g.node m).id = id ∨
    (g.node m).kind.isGateway = false ∧ (joinId (g.node m).id = id ∨ splitId (g.node m).id = id))

/-- The ids can be parts of names, and none of them looks like another one with a number behind it. -/
structure Legible (g : ProcessGraph) : Prop extends g.Readable where
  unnumbered : ∀ n id k, index n < g.nodes.size → g.BearsNumbers id → (g.node n).id ≠ numbered id k

/-- No id has the character of the separator or the number sign in it. -/
def hasPlainIds (g : ProcessGraph) : Bool :=
  (g.processId :: g.nodes.items.map (·.id) ++ g.flows.items.map (·.id)).all fun id =>
    !id.toList.contains '@' && !id.toList.contains '#'

theorem legible_of_hasPlainIds (h : g.hasPlainIds) : g.Legible := by
  simp only [hasPlainIds, List.all_eq_true, Bool.and_eq_true, Bool.not_eq_true', List.cons_append,
    List.mem_cons, List.mem_append, List.mem_map] at h
  have hat : ∀ {id : String}, id.toList.contains '@' = false → Separable id := fun hid =>
    separable_of_not_mem (by simpa using hid)
  have hnode : ∀ n, (g.node n).id.toList.contains '@' = false ∧ (g.node n).id.toList.contains '#' = false := by
    intro n
    rcases List.mem_cons.1 (node_mem g n) with hn | hn
    · rw [hn]
      decide
    · exact h _ (.inr (.inl ⟨g.node n, hn, rfl⟩))
  refine ⟨⟨hat (h _ (.inl rfl)).1, fun n _ => hat (hnode n).1, fun f hf => ?_⟩, fun n id k _ _ => ?_⟩
  · exact hat (h _ (.inr (.inr ⟨g.flow f, flow_mem hf, rfl⟩))).1
  · exact ne_numbered (by simpa using (hnode n).2) id k

/-! ## Gateway form -/

/-- What came to `g` is named after its nodes. -/
structure Derived (g g' : ProcessGraph) : Prop where
  refines : Refines g g'
  node : ∀ n, g.nodes.size ≤ index n → index n < g'.nodes.size → (g'.node n).kind.isDirected ∧
    ∃ m, index m < g.nodes.size ∧ (g.node m).kind.isGateway = false ∧
      ((g'.node n).id = joinId (g.node m).id ∨ (g'.node n).id = splitId (g.node m).id)
  flow : ∀ f, index f < g'.flows.size →
    (index f < g.flows.size ∧ (g'.flow f).id = (g.flow f).id) ∨
    ∃ m, index m < g.nodes.size ∧ (g.node m).kind.isGateway = false ∧
      ((g'.flow f).id = connectorId (joinId (g.node m).id) ∨
        (g'.flow f).id = connectorId (splitId (g.node m).id))

theorem Derived.refl (g : ProcessGraph) : Derived g g :=
  ⟨.refl g, fun _ h h' => absurd h' (Nat.not_lt.2 h), fun _ h => .inl ⟨h, rfl⟩⟩

theorem Derived.trans (h : Derived g g') (k : Derived g' g'') : Derived g g'' := by
  -- The owner of a gateway is no gateway, so it was there before.
  have howner : ∀ m, index m < g'.nodes.size → (g'.node m).kind.isGateway = false →
      index m < g.nodes.size ∧ (g.node m).kind.isGateway = false ∧ (g'.node m).id = (g.node m).id := by
    intro m hm hkind
    by_cases hold : index m < g.nodes.size
    · obtain ⟨hid, -, hsame⟩ := h.refines.id_eq hold
      exact ⟨hold, hsame ▸ hkind, hid⟩
    · obtain ⟨hdirected, -⟩ := h.node m (Nat.le_of_not_lt hold) hm
      cases hk : (g'.node m).kind with
      | gateway => rw [hk] at hkind; cases hkind
      | _ => rw [hk] at hdirected; cases hdirected
  refine ⟨h.refines.trans k.refines, fun n hn hn' => ?_, fun f hf => ?_⟩
  · by_cases hold : index n < g'.nodes.size
    · obtain ⟨hid, -, hkind⟩ := k.refines.id_eq hold
      rw [hid, hkind]
      exact h.node n hn hold
    · obtain ⟨hdirected, m, hm, hkind, hid⟩ := k.node n (Nat.le_of_not_lt hold) hn'
      obtain ⟨hm', hkind', he⟩ := howner m hm hkind
      exact ⟨hdirected, m, hm', hkind', he ▸ hid⟩
  · rcases k.flow f hf with ⟨hold, hid⟩ | ⟨m, hm, hkind, hid⟩
    · rw [hid]
      exact h.flow f hold
    · obtain ⟨hm', hkind', he⟩ := howner m hm hkind
      exact .inr ⟨m, hm', hkind', he ▸ hid⟩

theorem Rerouted.derived {gateway : Node} {connector : Flow} {move : Flow → Flow}
    (h : Rerouted g gateway connector move g') (hrefines : Refines g g') (hn : index n < g.nodes.size)
    (hkind : (g.node n).kind.isGateway = false) (hgateway : gateway.kind.isDirected)
    (hid : gateway.id = joinId (g.node n).id ∨ gateway.id = splitId (g.node n).id)
    (hconnector : connector.id = connectorId gateway.id) (hmove : ∀ x, (move x).id = x.id) : Derived g g' := by
  refine ⟨hrefines, fun m hm hm' => ?_, fun f hf => ?_⟩
  · rw [h.nodeCount, Arena.lt_succ_iff_next] at hm'
    obtain rfl := hm'.resolve_left (Nat.not_lt.2 hm)
    have hbare := h.bare g.nodes.next
    rw [if_pos rfl] at hbare
    have hid' : (g'.node g.nodes.next).id = gateway.id := congrArg (·.id) hbare
    have hkind' : (g'.node g.nodes.next).kind = gateway.kind := congrArg (·.kind) hbare
    rw [hid', hkind']
    exact ⟨hgateway, n, hn, hkind, hid⟩
  · rw [h.flowCount, Arena.lt_succ_iff_next] at hf
    rcases hf with hf | rfl
    · rw [h.flow f hf]
      exact .inl ⟨hf, hmove _⟩
    · rw [h.connector, hconnector]
      exact .inr ⟨n, hn, hkind, hid.imp (congrArg connectorId) (congrArg connectorId)⟩

theorem derived_normalize (hg : g.Linked) (hd : g.Distinct) (h : g.normalize = .ok g') : Derived g g' := by
  refine keeps_normalize (P := Derived g) (fun g₁ n g₂ hl hn hkind hlen hP hjoin => hP.trans ?_)
    (fun g₁ n g₂ hl hn hkind hlen hP hsplit => hP.trans ?_) hg hd (.refl g) h
  · exact (rerouted_joinIncoming hl hn hjoin).derived (refines_joinIncoming hjoin) hn hkind rfl (.inl rfl) rfl
      (id_leadInto _ _)
  · exact (rerouted_splitOutgoing hl hn hsplit).derived (refines_splitOutgoing hsplit) hn hkind rfl (.inr rfl)
      rfl (id_leadOutOf _ _)

theorem separable_gatewayId {id : String} (h : Separable id) : Separable (joinId id) ∧ Separable (splitId id) :=
  ⟨h.prepend (by decide), h.prepend (by decide)⟩

/-- What `normalize` makes of a legible graph: only nodes with numbered steps have ids that others may
look like, and those that look like them have numbered steps as well. -/
structure Telling (g : ProcessGraph) : Prop extends g.Readable where
  distinct : g.Distinct
  rooted : g.Rooted
  unnumbered : ∀ n m k, index n < g.nodes.size → index m < g.nodes.size →
    (g.node n).kind.isDirected = false → (g.node m).kind.isNumbered → (g.node n).id ≠ numbered (g.node m).id k

theorem Legible.telling (hg : g.Legible) (h : Derived g g') (hsound : g'.Sound) : g'.Telling := by
  have hgateway : ∀ {id : String} {m : NodeId}, index m < g.nodes.size →
      id = joinId (g.node m).id ∨ id = splitId (g.node m).id → Separable id := by
    rintro id m hm (rfl | rfl)
    · exact (separable_gatewayId (hg.node m hm)).1
    · exact (separable_gatewayId (hg.node m hm)).2
  refine ⟨⟨h.refines.processId ▸ hg.process, fun n hn => ?_, fun f hf => ?_⟩, hsound.distinct, hsound.rooted,
    fun n m k hn hm hdirected hm' => ?_⟩
  · by_cases hold : index n < g.nodes.size
    · rw [(h.refines.id_eq hold).1]
      exact hg.node n hold
    · obtain ⟨-, m, hm, -, hid⟩ := h.node n (Nat.le_of_not_lt hold) hn
      exact hgateway hm hid
  · rcases h.flow f hf with ⟨hold, hid⟩ | ⟨m, hm, -, hid | hid⟩
    · rw [hid]
      exact hg.flow f hold
    · rw [hid]
      exact (hgateway hm (.inl rfl)).append (by decide)
    · rw [hid]
      exact (hgateway hm (.inr rfl)).append (by decide)
  · have hold : index n < g.nodes.size := by
      by_contra hnew
      obtain ⟨h', -⟩ := h.node n (Nat.le_of_not_lt hnew) hn
      rw [hdirected] at h'
      cases h'
    rw [(h.refines.id_eq hold).1]
    refine hg.unnumbered n _ k hold ?_
    by_cases hm₀ : index m < g.nodes.size
    · obtain ⟨hid, -, hkind⟩ := h.refines.id_eq hm₀
      exact ⟨m, hm₀, .inl ⟨hkind ▸ hm', hid.symm⟩⟩
    · obtain ⟨-, a, ha, hkind, hid⟩ := h.node m (Nat.le_of_not_lt hm₀) hm
      exact ⟨a, ha, .inr ⟨hkind, hid.imp Eq.symm Eq.symm⟩⟩

/-! ## Steps -/

/-- What the name of a step is made of. -/
inductive Signed (g : ProcessGraph) (s : Step) : Prop
  | plain (mark last : String) (hmark : Separable mark) (hlast : Separable last)
    (howner : (g.node s.owner).kind.isDirected = false)
    (hname : s.name = joinName [mark, (g.node s.owner).id, last])
  | numbered (mark last : String) (k : Nat) (hmark : Separable mark) (hlast : Separable last)
    (howner : (g.node s.owner).kind.isNumbered)
    (hname : s.name = joinName [mark, numbered (g.node s.owner).id k, last])
  | framed (inner outer : String) (hinner : Separable inner) (houter : Separable outer)
    (hname : s.name = joinName ["t-terminate-end", (g.node s.owner).id, inner, outer])

theorem Readable.process_of_hasProcess (hg : g.Readable) {process : String} (h : g.HasProcess process) :
    Separable process := by
  rcases h with rfl | ⟨m, hm, rfl⟩
  · exact hg.process
  · exact hg.node m (lt_of_isSubprocess hm)

theorem isDirected_eq_false {kind : NodeKind}
    (h : ∀ direction, kind = .gateway .exclusive direction → direction = .unspecified) :
    kind.isDirected = false := by
  unfold NodeKind.isDirected
  split
  · exact decide_eq_false (not_not_intro (h _ rfl))
  · rfl

theorem signed_of_mem_nodeSteps (hg : g.Telling) (hn : index n < g.nodes.size)
    (hs : s ∈ g.nodeSteps n) : Signed g s := by
  have hprocess := hg.process_of_hasProcess (hg.rooted.node n hn)
  rcases mem_nodeSteps true hs with ⟨rfl, hplain⟩ | ⟨_, hkind, hs⟩
  · exact .plain "t" _ (by decide) hprocess (isDirected_eq_false hplain) rfl
  · obtain ⟨⟨_, k⟩, _, rfl⟩ := List.mem_map.1 hs
    refine .numbered "t" _ k (by decide) hprocess ?_ rfl
    rw [hkind]
    rfl

theorem isDirected_of_isSubprocess {kind : NodeKind} (h : kind.isSubprocess) : kind.isDirected = false := by
  cases kind with
  | subprocess => rfl
  | _ => cases h

theorem signed_of_mem_joinSteps (hg : g.Telling) (hn : index n < g.nodes.size)
    (hkind : (g.node n).kind.isSubprocess) (hs : s ∈ g.joinSteps n) : Signed g s := by
  have hprocess := hg.process_of_hasProcess (hg.rooted.node n hn)
  rcases List.mem_cons.1 hs with rfl | hs
  · exact .plain "t-start-subprocess" _ (by decide) hprocess (isDirected_of_isSubprocess hkind) rfl
  · obtain ⟨⟨_, k⟩, _, rfl⟩ := List.mem_map.1 hs
    by_cases hone : (g.normalEndsOf (g.node n).id).length = 1
    · refine .plain "t-end-subprocess" _ (by decide) hprocess (isDirected_of_isSubprocess hkind) ?_
      simp [exitName, hone]
    · refine .numbered "t-end-subprocess" _ k (by decide) hprocess ?_ ?_
      · cases hk : (g.node n).kind with
        | subprocess => simp [NodeKind.isNumbered]
        | _ => rw [hk] at hkind; cases hkind
      · simp [exitName, hone, numbered]

theorem signed_of_mem_steps (hg : g.Telling) (hs : s ∈ g.steps showEvents) :
    Signed g s := by
  have hprocess : ∀ n, index n < g.nodes.size → Separable (g.node n).process := fun n hn =>
    hg.process_of_hasProcess (hg.rooted.node n hn)
  have hevent : ∀ n m takes, index n < g.nodes.size → m ∈ g.boundaryEventsOf (g.node n).id →
      Signed g (g.boundaryStep showEvents n m takes) := by
    intro n m takes hn hm
    obtain ⟨-, trigger, hkind⟩ := mem_boundaryEventsOf.1 hm
    refine .plain "t-boundary" _ (by decide) (hprocess n hn) ?_ rfl
    change (g.node m).kind.isDirected = false
    rw [hkind]
    rfl
  simp only [steps, List.mem_append] at hs
  rcases hs with (((hs | hs) | hs) | hs) | hs
  · obtain ⟨n, hn, hs⟩ := List.mem_flatMap.1 hs
    exact signed_of_mem_nodeSteps hg (mem_sortedNodes.1 hn) hs
  · obtain ⟨n, hn, hs⟩ := List.mem_flatMap.1 hs
    obtain ⟨hlt, hkind⟩ := mem_subprocessesInnermostFirst.1 hn
    exact signed_of_mem_joinSteps hg hlt hkind hs
  · obtain ⟨n, hn, hs⟩ := List.mem_flatMap.1 hs
    obtain ⟨m, hm, rfl⟩ := List.mem_map.1 hs
    exact hevent n m _ (mem_select.1 hn).1 hm
  · obtain ⟨n, hn, hs⟩ := List.mem_flatMap.1 hs
    have hlt := (mem_subprocessesInnermostFirst.1 hn).1
    rcases List.mem_append.1 hs with hs | hs
    · obtain ⟨m, hm, rfl⟩ := List.mem_map.1 hs
      exact hevent n m _ hlt hm
    · obtain ⟨m, _, rfl⟩ := List.mem_map.1 hs
      exact .framed _ _ (hg.node n hlt) (hprocess n hlt) rfl
  · obtain ⟨m, hm, rfl⟩ := List.mem_map.1 hs
    refine .plain "t-terminate-end" _ (by decide) hg.process ?_ rfl
    change (g.node m).kind.isDirected = false
    rw [(mem_terminationsOf.1 hm).2.2]
    rfl

section Parts

variable {mark mark' body body' last last' : String}

theorem parts_eq_of_joinName (hbody : Separable body) (hbody' : Separable body') (hlast : Separable last)
    (hlast' : Separable last') (h : joinName [mark, body, last] = joinName [mark', body', last']) :
    mark = mark' ∧ body = body' := by
  have h : joinName ([mark] ++ [body, last]) = joinName ([mark'] ++ [body', last']) := h
  obtain ⟨hbodies, -, -, hmarks⟩ := joinName_inj hbody hbody' hlast hlast' h
  rw [joinName_singleton, joinName_singleton] at hmarks
  exact ⟨hmarks, hbodies⟩

/-- A mark of one part is no mark of two parts. -/
theorem joinName_ne_framed {id inner outer : String} (hmark : Separable mark) (hbody : Separable body)
    (hlast : Separable last) (hinner : Separable inner) (houter : Separable outer) :
    joinName [mark, body, last] ≠ joinName [mark', id, inner, outer] := by
  intro h
  have h : joinName ([mark] ++ [body, last]) = joinName ([mark', id] ++ [inner, outer]) := h
  obtain ⟨-, -, -, hmarks⟩ := joinName_inj hbody hinner hlast houter h
  rw [joinName_singleton] at hmarks
  exact hmark.ne_joinName (List.cons_ne_nil mark' []) hmarks

theorem id_eq_of_framed {id id' inner inner' outer outer' : String} (hid : Separable id) (hid' : Separable id')
    (hinner : Separable inner) (hinner' : Separable inner') (houter : Separable outer)
    (houter' : Separable outer')
    (h : joinName [mark, id, inner, outer] = joinName [mark, id', inner', outer']) : id = id' := by
  have h : joinName ([mark, id] ++ [inner, outer]) = joinName ([mark, id'] ++ [inner', outer']) := h
  obtain ⟨-, -, -, hmarks⟩ := joinName_inj hinner hinner' houter houter' h
  have hmarks : joinName ([mark] ++ [id]) = joinName ([mark] ++ [id']) := hmarks
  rw [joinName_append (List.cons_ne_nil mark []), joinName_append (List.cons_ne_nil mark [])] at hmarks
  exact (append_separator_inj hid hid' hmarks).2

end Parts

/-- The name of a step tells who owns it. -/
theorem Signed.owner_eq (hg : g.Telling) (hs : Signed g s) (hs' : Signed g s')
    (hlt : index s.owner < g.nodes.size) (hlt' : index s'.owner < g.nodes.size) (h : s.name = s'.name) :
    s.owner = s'.owner := by
  have hid := hg.node _ hlt
  have hid' := hg.node _ hlt'
  cases hs with
  | plain mark last hmark hlast howner hname =>
    rw [hname] at h
    cases hs' with
    | plain mark' last' _ hlast' _ hname' =>
      exact hg.distinct.node _ _ hlt hlt' (parts_eq_of_joinName hid hid' hlast hlast' (h.trans hname')).2
    | numbered mark' last' k _ hlast' howner' hname' =>
      exact absurd (parts_eq_of_joinName hid (hid'.numbered k) hlast hlast' (h.trans hname')).2
        (hg.unnumbered _ _ k hlt hlt' howner howner')
    | framed inner outer hinner houter hname' =>
      exact absurd (h.trans hname') (joinName_ne_framed hmark hid hlast hinner houter)
  | numbered mark last k hmark hlast howner hname =>
    rw [hname] at h
    cases hs' with
    | plain mark' last' _ hlast' howner' hname' =>
      exact absurd (parts_eq_of_joinName (hid.numbered k) hid' hlast hlast' (h.trans hname')).2.symm
        (hg.unnumbered _ _ k hlt' hlt howner' howner)
    | numbered mark' last' k' _ hlast' _ hname' =>
      obtain ⟨-, hbody⟩ := parts_eq_of_joinName (hid.numbered k) (hid'.numbered k') hlast hlast'
        (h.trans hname')
      exact hg.distinct.node _ _ hlt hlt' (numbered_inj hbody).1
    | framed inner outer hinner houter hname' =>
      exact absurd (h.trans hname') (joinName_ne_framed hmark (hid.numbered k) hlast hinner houter)
  | framed inner outer hinner houter hname =>
    rw [hname] at h
    cases hs' with
    | plain mark' last' hmark' hlast' _ hname' =>
      exact absurd (hname'.symm.trans h.symm) (joinName_ne_framed hmark' hid' hlast' hinner houter)
    | numbered mark' last' k' hmark' hlast' _ hname' =>
      exact absurd (hname'.symm.trans h.symm) (joinName_ne_framed hmark' (hid'.numbered k') hlast' hinner houter)
    | framed inner' outer' hinner' houter' hname' =>
      exact hg.distinct.node _ _ hlt hlt'
        (id_eq_of_framed hid hid' hinner hinner' houter houter' (h.trans hname'))

/-! ## All names -/

/-- Names are pairwise different if each of them tells the owner, and the steps of no owner share one. -/
theorem nodup_of_owners {l : List Step} (howner : ∀ s ∈ l, ∀ s' ∈ l, s.name = s'.name → s.owner = s'.owner)
    (hown : ∀ s ∈ l, ((l.filter fun r => r.owner = s.owner).map (·.name)).Nodup) :
    (l.map (·.name)).Nodup := by
  rw [List.nodup_iff_count_le_one]
  intro name
  by_cases hname : name ∈ l.map (·.name)
  · obtain ⟨s, hs, rfl⟩ := List.mem_map.1 hname
    refine Nat.le_trans (Nat.le_of_eq ?_) (List.nodup_iff_count_le_one.1 (hown s hs) s.name)
    rw [List.count_eq_countP, List.count_eq_countP, List.countP_map, List.countP_map, List.countP_filter]
    refine List.countP_congr fun r hr => ?_
    simp only [Function.comp_apply, beq_iff_eq, Bool.and_eq_true, decide_eq_true_eq]
    exact ⟨fun he => ⟨he, howner r hr s hs he⟩, fun he => he.1⟩
  · rw [List.count_eq_zero_of_not_mem hname]
    exact Nat.zero_le 1

/-- Steps that are part of the whole and as many as their owner owns are all that it owns. -/
theorem filter_owner_eq {l l' : List Step} (hsub : l'.Sublist l) (howner : ∀ s ∈ l', s.owner = n)
    (hlen : l'.length = owned n l) : l.filter (fun s => s.owner = n) = l' := by
  have hsub' := hsub.filter fun s => decide (s.owner = n)
  rw [List.filter_eq_self.2 fun s hs => decide_eq_true (howner s hs)] at hsub'
  refine (hsub'.eq_of_length ?_).symm
  rw [hlen, owned, List.countP_eq_length_filter]

theorem sublist_flatMap {α β : Type} {l : List α} {f : α → List β} {a : α} (ha : a ∈ l) :
    (f a).Sublist (l.flatMap f) :=
  List.sublist_flatten_of_mem (List.mem_map_of_mem ha)

theorem nodup_numbered (mark : String) {id last : String} (hid : Separable id) (hlast : Separable last)
    (count : Nat) : ((List.range count).map fun k => joinName [mark, numbered id k, last]).Nodup := by
  refine List.nodup_range.map fun k k' h => ?_
  obtain ⟨-, hbody⟩ := parts_eq_of_joinName (hid.numbered k) (hid.numbered k') hlast hlast h
  exact (numbered_inj hbody).2

theorem nodup_names_choiceSteps (hid : Separable (g.node n).id) (hprocess : Separable (g.node n).process) :
    ((g.choiceSteps n).map (·.name)).Nodup := by
  have h := nodup_numbered "t" hid hprocess (g.branches n).length
  rw [← map_number (g.branches n)] at h
  rw [choiceSteps, List.map_map]
  exact h

theorem nodup_names_joinSteps (hid : Separable (g.node n).id) (hprocess : Separable (g.node n).process) :
    ((g.joinSteps n).map (·.name)).Nodup := by
  have hbody : ∀ count k, Separable (if count = 1 then (g.node n).id else numbered (g.node n).id k) := by
    intro count k
    split
    · exact hid
    · exact hid.numbered k
  rw [joinSteps, List.map_cons, List.nodup_cons, exitSteps, List.map_map]
  constructor
  · intro hmem
    obtain ⟨⟨_, k⟩, _, he⟩ := List.mem_map.1 hmem
    obtain ⟨hmarks, -⟩ := parts_eq_of_joinName (hbody _ k) hid hprocess hprocess he
    revert hmarks
    decide
  · by_cases hone : (g.normalEndsOf (g.node n).id).length = 1
    · obtain ⟨e, he⟩ := List.length_eq_one_iff.1 hone
      simp [he]
    · have h := nodup_numbered "t-end-subprocess" hid hprocess (g.normalEndsOf (g.node n).id).length
      rw [← map_number (g.normalEndsOf (g.node n).id)] at h
      simpa [Function.comp_def, exitName, hone, numbered] using h

/-- The steps of one owner: few, or those of an exclusive gateway or of a subprocess. -/
theorem nodup_names_owned (hg : g.Telling) (hsound : g.Sound) (hn : index n < g.nodes.size) :
    (((g.steps showEvents).filter fun s => s.owner = n).map (·.name)).Nodup := by
  have hid := hg.node n hn
  have hprocess := hg.process_of_hasProcess (hg.rooted.node n hn)
  have hcount : owned n (g.steps showEvents) = g.stepCount n := owned_steps hsound hn
  -- two steps of one owner there are only at subprocesses and at exclusive gateways with several branches
  have hfew : g.stepCount n ≤ 1 →
      (((g.steps showEvents).filter fun s => s.owner = n).map (·.name)).Nodup := by
    intro hle
    rw [← hcount, owned, List.countP_eq_length_filter] at hle
    rcases hl : (g.steps showEvents).filter fun s => s.owner = n with _ | ⟨s, _ | ⟨s', l⟩⟩
    · simp [hl]
    · simp [hl]
    · simp [hl] at hle
  unfold stepCount at hcount hfew
  cases hkind : (g.node n).kind with
  | task | catchEvent | throwEvent | boundaryEvent | startEvent => exact hfew (by simp [hkind])
  | endEvent trigger => exact hfew (by cases trigger <;> simp [hkind])
  | subprocess =>
    have hall : ((g.steps showEvents).filter fun s => s.owner = n) = g.joinSteps n := by
      have hmem : n ∈ g.subprocessesInnermostFirst := mem_of_isSubprocess (by rw [hkind]; rfl)
      refine filter_owner_eq ?_ (fun s => owner_of_mem_joinSteps) ?_
      · simp only [steps, List.append_assoc]
        exact ((sublist_flatMap hmem).trans (List.sublist_append_left _ _)).trans
          (List.sublist_append_right _ _)
      · rw [hcount, hkind, length_joinSteps]
    rw [hall]
    exact nodup_names_joinSteps hid hprocess
  | gateway kind direction =>
    cases kind with
    | parallel | inclusive => exact hfew (by simp [hkind])
    | exclusive =>
      by_cases hplain : g.IsPlain n direction
      · exact hfew (by simp [hkind, hplain.2.1, hplain.2.2])
      · have hall : ((g.steps showEvents).filter fun s => s.owner = n) = g.choiceSteps n := by
          have hsteps : g.nodeSteps n = g.choiceSteps n := by
            rw [nodeSteps, hkind]
            exact if_neg hplain
          rw [← hsteps]
          refine filter_owner_eq ?_ (fun s => owner_of_mem_nodeSteps) ?_
          · simp only [steps, List.append_assoc]
            exact (sublist_flatMap (mem_sortedNodes.2 hn)).trans (List.sublist_append_left _ _)
          · rw [hcount, hkind, hsteps, choiceSteps, List.length_map, List.length_zipIdx, length_branches]
        rw [hall]
        exact nodup_names_choiceSteps hid hprocess

theorem nodup_names_steps (hg : g.Telling) (hsound : g.Sound) :
    ((g.steps showEvents).map (·.name)).Nodup := by
  refine nodup_of_owners (fun s hs s' hs' h => ?_) fun s hs => ?_
  · exact (signed_of_mem_steps hg hs).owner_eq hg (signed_of_mem_steps hg hs') (label_of_mem_steps hs).1
      (label_of_mem_steps hs').1 h
  · exact nodup_names_owned hg hsound (label_of_mem_steps hs).1

/-! ## Names of places -/

/-- The name of the place of a flow tells the flow. -/
theorem eq_of_flowName (hg : g.Telling) {f k : FlowId} (hf : index f < g.flows.size)
    (hk : index k < g.flows.size) (h : flowName g f = flowName g k) : f = k := by
  have hid := joinName_inj (hg.flow f hf) (hg.flow k hk) (hg.process_of_hasProcess (hg.rooted.flow f hf))
    (hg.process_of_hasProcess (hg.rooted.flow k hk)) h
  exact hg.distinct.flow f k hf hk hid.1

theorem flowName_ne_gateName (hg : g.Telling) {f : FlowId} {activity : String} (hf : index f < g.flows.size)
    (hn : index n < g.nodes.size) (hactivity : Separable activity) :
    flowName g f ≠ joinName ["boundary", (g.node n).id, activity] := by
  intro h
  have h : joinName ((flowRole g (g.flow f)).mark?.toList ++ (flowRole g (g.flow f)).event?.toList ++
      [(g.flow f).id, (g.flow f).process]) = joinName (["boundary"] ++ [(g.node n).id, activity]) := h
  obtain ⟨-, -, hnil, hfront⟩ := joinName_inj (hg.flow f hf) (hg.node n hn)
    (hg.process_of_hasProcess (hg.rooted.flow f hf)) hactivity h
  have hmark : Separable "boundary" := by decide
  rw [joinName_singleton] at hfront
  cases hrole : flowRole g (g.flow f) with
  | source | sink =>
    rw [hrole] at hfront
    simp [PlaceRole.mark?, PlaceRole.event?, joinName_singleton] at hfront
  | error event | cancel event | message event | terminate event =>
    rw [hrole] at hfront
    exact hmark.ne_joinName (List.cons_ne_nil _ []) hfront.symm
  | flow =>
    rw [hrole] at hnil
    simp [PlaceRole.mark?, PlaceRole.event?] at hnil
  | boundaryGate => exact flowRole_ne_boundaryGate g _ hrole

/-- The names of the places of all flows, and those of the gates. -/
def allPlaceNames (g : ProcessGraph) : List String :=
  g.sortedFlows.map (flowName g) ++ g.subprocessesInnermostFirst.flatMap fun n =>
    (g.boundaryEventsOf (g.node n).id).flatMap (gateNames g (g.node n).id)

theorem mem_gateNames {activity name : String} : name ∈ gateNames g activity m ↔
    IsMessageOn g activity m ∧ name = joinName ["boundary", (g.node m).id, activity] := by
  unfold gateNames
  split <;> simp_all

theorem nodup_gateNames (hg : g.Telling) : (g.subprocessesInnermostFirst.flatMap fun n =>
    (g.boundaryEventsOf (g.node n).id).flatMap (gateNames g (g.node n).id)).Nodup := by
  have hinj : ∀ {m m' : NodeId} {a a' : String}, index m < g.nodes.size → index m' < g.nodes.size →
      Separable a → Separable a' →
      joinName ["boundary", (g.node m).id, a] = joinName ["boundary", (g.node m').id, a'] → m = m' :=
    fun hm hm' ha ha' h => hg.distinct.node _ _ hm hm'
      (parts_eq_of_joinName (hg.node _ hm) (hg.node _ hm') ha ha' h).2
  rw [List.nodup_flatMap]
  constructor
  · intro n hn
    have hid := hg.node n (mem_subprocessesInnermostFirst.1 hn).1
    rw [List.nodup_flatMap]
    constructor
    · intro m _
      unfold gateNames
      split
      · exact List.nodup_singleton _
      · exact List.nodup_nil
    · refine (nodup_select _).imp_of_mem fun {m m'} hm hm' hne name h h' => ?_
      obtain ⟨-, rfl⟩ := mem_gateNames.1 h
      obtain ⟨-, he⟩ := mem_gateNames.1 h'
      exact hne (hinj (mem_boundaryEventsOf.1 hm).1 (mem_boundaryEventsOf.1 hm').1 hid hid he)
  · refine (nodup_subprocessesInnermostFirst g).imp_of_mem fun {n n'} hn hn' hne name h h' => ?_
    have hlt := (mem_subprocessesInnermostFirst.1 hn).1
    have hlt' := (mem_subprocessesInnermostFirst.1 hn').1
    obtain ⟨m, hm, h⟩ := List.mem_flatMap.1 h
    obtain ⟨hkind, rfl⟩ := mem_gateNames.1 h
    obtain ⟨m', hm', h'⟩ := List.mem_flatMap.1 h'
    obtain ⟨hkind', he⟩ := mem_gateNames.1 h'
    obtain rfl := hinj (mem_boundaryEventsOf.1 hm).1 (mem_boundaryEventsOf.1 hm').1 (hg.node n hlt)
      (hg.node n' hlt') he
    -- A message is on one activity.
    have hsame := hkind.symm.trans hkind'
    rw [NodeKind.boundaryEvent.injEq] at hsame
    exact hne (hg.distinct.node n n' hlt hlt' hsame.2)

theorem nodup_allPlaceNames (hg : g.Telling) : g.allPlaceNames.Nodup := by
  rw [allPlaceNames, List.nodup_append]
  refine ⟨?_, nodup_gateNames hg, ?_⟩
  · refine (nodup_sortedFlows g).map_on fun f hf k hk h => ?_
    exact eq_of_flowName hg (mem_sortedFlows.1 hf) (mem_sortedFlows.1 hk) h
  · intro name hname name' hname' he
    obtain ⟨f, hf, rfl⟩ := List.mem_map.1 hname
    obtain ⟨n, hn, hname'⟩ := List.mem_flatMap.1 hname'
    obtain ⟨m, hm, hname'⟩ := List.mem_flatMap.1 hname'
    obtain ⟨-, rfl⟩ := mem_gateNames.1 hname'
    exact flowName_ne_gateName hg (mem_sortedFlows.1 hf) (mem_boundaryEventsOf.1 hm).1
      (hg.node n (mem_subprocessesInnermostFirst.1 hn).1) he

/-- The places that a construction makes have some of these names. -/
theorem placed_sublist (sunk : Bool) (l : List FlowId) : (placed g sunk l).Sublist l := by
  induction l generalizing sunk with
  | nil => exact .slnil
  | cons f l ih =>
    rw [placed]
    split
    · split
      · exact (ih true).cons f
      · exact (ih true).cons_cons f
    · exact (ih sunk).cons_cons f

theorem placeNames_sublist : (placeNames g).Sublist g.allPlaceNames :=
  ((placed_sublist false g.sortedFlows).map (flowName g)).append (.refl _)

/-! ## Conversions -/

/-- Where names are pairwise different, `toAcceptingNet` meets none that is taken. -/
theorem not_isDuplicate_of_toAcceptingNet {e : ConversionError}
    (hplaces : ∀ normal, g.normalize = .ok normal → (placeNames normal).Nodup)
    (hsteps : ∀ normal, g.normalize = .ok normal → ((normal.steps showEvents).map (·.name)).Nodup)
    (h : g.toAcceptingNet showEvents = .error e) : ¬ e.IsDuplicate := by
  cases hfirst : g.firstUnsupported? with
  | some n =>
    simp only [toAcceptingNet, hfirst] at h
    cases h
    exact id
  | none =>
    cases hnormal : g.normalize with
    | error e' =>
      simp only [toAcceptingNet, hfirst, hnormal, Except.mapError, bind, Except.bind] at h
      cases h
      cases e' <;> exact id
    | ok normal =>
      cases hc : Construction.construct normal showEvents (Construction.start normal) with
      | ok u c =>
        rw [toAcceptingNet_of_construct hfirst hnormal hc] at h
        cases h
      | error e' c =>
        simp only [toAcceptingNet, hfirst, hnormal, construct, hc, Except.mapError, bind, Except.bind] at h
        cases h
        have hsupported := (refines_normalize hnormal).supported (supported_of_firstUnsupported? hfirst)
        exact not_isDuplicate_of_construct hsupported (hplaces _ hnormal) (hsteps _ hnormal) hc

end ProcessGraph

namespace ProcessDeclaration

open ProcessGraph

variable {d : ProcessDeclaration} {g : ProcessGraph}

/-- In a graph that was built and is legible, generated names are pairwise different, and
`toAcceptingNet` meets none that is taken. -/
theorem nodup_names_of_legible (hbuild : d.build = .ok g) (hlegible : g.Legible) (showEvents : Bool) :
    (∀ normal, g.normalize = .ok normal →
      normal.allPlaceNames.Nodup ∧ ((normal.steps showEvents).map (·.name)).Nodup) ∧
    ∀ e, g.toAcceptingNet showEvents = .error e → ¬ e.IsDuplicate := by
  obtain ⟨_, hd⟩ := declares_of_build hbuild
  have hnodup : ∀ normal, g.normalize = .ok normal →
      normal.allPlaceNames.Nodup ∧ ((normal.steps showEvents).map (·.name)).Nodup := by
    intro normal hnormal
    have hsound := (sound_of_build hbuild).normalize hnormal
    have htelling := hlegible.telling (derived_normalize hd.linked hd.distinct hnormal) hsound
    exact ⟨nodup_allPlaceNames htelling, nodup_names_steps htelling hsound⟩
  refine ⟨hnodup, fun e he => not_isDuplicate_of_toAcceptingNet (fun normal hnormal => ?_)
    (fun normal hnormal => (hnodup normal hnormal).2) he⟩
  exact placeNames_sublist.nodup (hnodup normal hnormal).1

/-- A subprocess with two normal ends and a message on it. -/
def notice : ProcessDeclaration where
  processId := "p"
  name := "p"
  nodes := [⟨"a", none, .startEvent .normal, "p"⟩, ⟨"done", none, .endEvent .normal, "p"⟩,
    ⟨"note", some "Note", .boundaryEvent .message "sp", "p"⟩, ⟨"noted", none, .endEvent .normal, "p"⟩,
    ⟨"one", none, .endEvent .normal, "sp"⟩, ⟨"s", none, .startEvent .normal, "sp"⟩,
    ⟨"sp", none, .subprocess 0, "p"⟩, ⟨"two", none, .endEvent .normal, "sp"⟩,
    ⟨"x", none, .gateway .exclusive .diverging, "sp"⟩]
  flows := [⟨"f1", none, .sequence, "a", "sp", none⟩, ⟨"f2", none, .sequence, "sp", "done", none⟩,
    ⟨"f3", none, .sequence, "note", "noted", none⟩, ⟨"h1", none, .sequence, "s", "x", none⟩,
    ⟨"h2", none, .sequence, "x", "one", none⟩, ⟨"h3", none, .sequence, "x", "two", none⟩]

theorem converts_notice : notice.converts fun g _ _ => g.hasPlainIds := by
  delta converts build Construction.construct addFlowPlaces addNodes addNode addGateway
    joinSubprocesses joinSubprocess normalEndPlaces addTaskBoundaries addSubprocessBoundaries
    addSubprocessBoundary mergeRaisingEnds raisingEnds terminateSubprocess terminateRoot startsOf
    endsOf boundaryEventsOf terminationsOf ProcessGraph.normalize firstUnsupported?
  simp only [sortedPlaces_eq_insertionSort, sortedNodes_eq_insertionSort,
    sortedFlows_eq_insertionSort, select_eq_insertionSort,
    subprocessesInnermostFirst_eq_insertionSort]
  decide +kernel

/-- Its flows, its gate and its steps have different names. -/
theorem nodup_names_notice : ∃ g normal, notice.build = .ok g ∧ g.Legible ∧ g.normalize = .ok normal ∧
    normal.allPlaceNames.Nodup ∧ ((normal.steps true).map (·.name)).Nodup ∧
    ∀ e, g.toAcceptingNet true = .error e → ¬ e.IsDuplicate := by
  obtain ⟨g, normal, c, hbuild, hnormal, -, -, hplain⟩ := exists_of_converts converts_notice
  have hlegible := legible_of_hasPlainIds hplain
  obtain ⟨hnodup, herror⟩ := nodup_names_of_legible hbuild hlegible true
  obtain ⟨hplaces, hsteps⟩ := hnodup normal hnormal
  exact ⟨g, normal, hbuild, hlegible, hnormal, hplaces, hsteps, herror⟩

/-- A task whose id is that of an exclusive gateway with the number of one of its branches behind it. -/
def lookalike : ProcessDeclaration where
  processId := "p"
  name := "p"
  nodes := [⟨"a", none, .gateway .exclusive .diverging, "p"⟩, ⟨"a#0", none, .task, "p"⟩,
    ⟨"e1", none, .endEvent .normal, "p"⟩, ⟨"e2", none, .endEvent .normal, "p"⟩,
    ⟨"s", none, .startEvent .normal, "p"⟩]
  flows := [⟨"f1", none, .sequence, "s", "a", none⟩, ⟨"f2", none, .sequence, "a", "a#0", none⟩,
    ⟨"f3", none, .sequence, "a", "e2", none⟩, ⟨"f4", none, .sequence, "a#0", "e1", none⟩]

theorem refuses_lookalike : lookalike.refuses (.net (.duplicateTransition "t@@@a#0@@@p")) := by
  delta refuses toAcceptingNet build ProcessGraph.construct Construction.construct addFlowPlaces addNodes
    addNode addGateway ProcessGraph.normalize firstUnsupported?
  simp only [sortedPlaces_eq_insertionSort, sortedNodes_eq_insertionSort, sortedFlows_eq_insertionSort]
  decide +kernel

/-- The first branch of the gateway and the task would have one name. -/
theorem lookalike_has_duplicate : ∃ g, lookalike.build = .ok g ∧
    g.toAcceptingNet false = .error (.net (.duplicateTransition "t@@@a#0@@@p")) :=
  exists_of_refuses refuses_lookalike

end ProcessDeclaration

end ProcessNet
