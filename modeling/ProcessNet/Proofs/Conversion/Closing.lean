/-
The books closed: the ledger of a construction that is finished. Each live transition does the step of the
catalogue that it was added for, and the places other than gates are those of the flows, where two flows
have one place just if they share the sink or their ends are merged.
-/
import Mathlib.Algebra.GroupWithZero.Nat
import ProcessNet.Proofs.Conversion.Finished
import ProcessNet.Proofs.Conversion.Merging

namespace ProcessNet

/-- The number of messages on subprocesses. -/
def ProcessGraph.messageCount (g : ProcessGraph) : Nat :=
  (g.subprocessesInnermostFirst.map fun n => (g.messagesOf n).length).sum

namespace Construction

open Identifier Net ProcessGraph

variable {g : ProcessGraph} {c c' : Construction} {f k : FlowId} {p q : PlaceId} {t : TransitionId}
  {n m : NodeId} {s : JoinedSubprocess} {showEvents : Bool} {done : List String} {gates : Nat}
  {steps : List Step} {place : FlowId → PlaceId} {all l : List JoinedSubprocess} {nodes : List NodeId}

/-! ## Events on a subprocess -/

/-- The node is a message on the activity. -/
def IsMessageOn (g : ProcessGraph) (activity : String) (m : NodeId) : Prop :=
  (g.node m).kind = .boundaryEvent .message activity

instance (activity : String) : DecidablePred (IsMessageOn g activity) :=
  fun m => inferInstanceAs (Decidable ((g.node m).kind = _))

/-- The transition that `addSubprocessBoundary` adds for an event is booked. For now it takes nothing. -/
theorem Ledger.withTransition (hg : g.Normal) (hs : Sound g c) (hl : Ledger g done gates steps place c)
    (hparent : s.parent = (g.node n).process) (hm : m ∈ g.boundaryEventsOf s.id)
    {x : Transition} (hname : x.name = boundaryName (g.node m).id s.parent)
    (hlabel : x.label = boundaryLabel showEvents (g.node m)) (hprocess : x.process = s.parent)
    {c₁ c₂ c₃ : Construction} (hout : outPlace g m c = .ok q c₁)
    (htransition : addTransition x c₁ = .ok t c₂) (harc : addArc (.output t q) c₂ = .ok () c₃) :
    Sound g c₃ ∧ Ledger g done gates (steps ++ [g.boundaryStep showEvents n m []]) place c₃ ∧
      c₃.net.liveTransitions = c.net.liveTransitions ++ [(t, x)] := by
  obtain ⟨-, trigger, hkind⟩ := mem_boundaryEventsOf.1 hm
  obtain ⟨-, f, hf, hsource⟩ := outPlace_gives hg.linked hout
  obtain ⟨rfl, hq⟩ := placing_outPlace (slim hg (isGateway_of_boundaryEvent hkind)) hout
  obtain ⟨st, -⟩ := stitches_addEvent (P := { sub := (· = s) }) hs rfl hm hf hsource hname hprocess
    htransition harc
  have hstep : addStep x [] [q] c₁ = .ok t c₃ :=
    bind_eq_ok.2 ⟨t, c₂, htransition, bind_eq_ok.2 ⟨_, c₂, rfl, bind_eq_ok.2 ⟨(), c₃,
      bind_eq_ok.2 ⟨_, c₃, harc, rfl⟩, rfl⟩⟩⟩
  obtain ⟨hl₃, -⟩ := books_addStep (s := g.boundaryStep showEvents n m []) hstep
    (by rw [hname, hparent]; rfl) hlabel
    ⟨fun _ h => absurd h List.not_mem_nil, fun _ h => absurd h List.not_mem_nil⟩ hq _ _ _ _ hl
  exact ⟨st.sound hs, hl₃, addStep_liveTransitions hl.consistent hstep⟩

/-- One turn of `addSubprocessBoundary`: the transition of the event is booked, and a message has a gate
besides. -/
theorem Ledger.withEvent (hg : g.Normal) (hs : Sound g c) (hl : Ledger g done gates steps place c)
    (hid : s.id ∈ done) (hparent : s.parent = (g.node n).process)
    (hm : m ∈ g.boundaryEventsOf s.id) {found found' : Interruptions}
    (h : addSubprocessBoundary g showEvents s found m c = .ok found' c') :
    ∃ place', Ledger g done (gates + if IsMessageOn g s.id m then 1 else 0)
      (steps ++ [g.boundaryStep showEvents n m (g.raisingFlows s.id (g.node m))]) place' c' := by
  obtain ⟨-, trigger, hkind⟩ := mem_boundaryEventsOf.1 hm
  simp only [addSubprocessBoundary, hkind] at h
  obtain ⟨q, c₁, hout, h₁⟩ := bind_eq_ok.1 h
  obtain ⟨t, c₂, htransition, h₂⟩ := bind_eq_ok.1 h₁
  obtain ⟨_, c₃, harc, h₃⟩ := bind_eq_ok.1 h₂
  obtain ⟨hs₃, hl₃, hlast₃⟩ := hl.withTransition hg hs hparent hm rfl rfl rfl hout
    htransition harc
  by_cases hinternal : trigger.isInternal
  · rw [if_pos hinternal] at h₃
    obtain ⟨p, c₄, hmerge, h₄⟩ := bind_eq_ok.1 h₃
    obtain ⟨_, c₅, hinput, h₅⟩ := bind_eq_ok.1 h₄
    cases h₅
    obtain ⟨hsame, hraised, place', hl₄, hplace⟩ :=
      hl₃.mergeEnds hg hs₃ hid hm hkind hinternal hmerge
    have hlast := hsame.trans hlast₃
    have hnot : ¬ IsMessageOn g s.id m := by
      intro hmessage
      cases hkind.symm.trans hmessage
      cases hinternal
    rw [if_neg hnot]
    exact ⟨place', hl₄.drawInput hlast rfl hraised hplace hinput⟩
  · rw [if_neg hinternal] at h₃
    obtain ⟨_, c₄, hgate, h₄⟩ := bind_eq_ok.1 h₃
    cases h₄
    have hmessage : trigger = .message := by
      cases trigger with
      | message => rfl
      | error | cancel => exact absurd rfl hinternal
    subst hmessage
    have hnone : g.raisingFlows s.id (g.node m) = [] := by
      rw [raisingFlows, endsRaising, hkind]
      rfl
    rw [if_pos (show IsMessageOn g s.id m from hkind), hnone]
    exact ⟨place, hl₃.withGate hs₃ hgate⟩

/-- All events of `addSubprocessBoundaries` are booked. -/
theorem Ledger.withEvents (hg : g.Normal) (hs : Sound g c) (hl : Ledger g done gates steps place c)
    (hid : s.id ∈ done) (hparent : s.parent = (g.node n).process)
    (hlive : ∀ u ∈ s.enter :: s.exits, c.net.hasTransition u)
    (hnodes : ∀ m ∈ nodes, m ∈ g.boundaryEventsOf s.id) {events : NodeId → Prop}
    {found found' : Interruptions} (hh : Handled g [s] s events found.raised c)
    (h : nodes.foldlM (addSubprocessBoundary g showEvents s) found c = .ok found' c') :
    ∃ place', Ledger g done (gates + nodes.countP fun m => decide (IsMessageOn g s.id m))
      (steps ++ nodes.map fun m => g.boundaryStep showEvents n m (g.raisingFlows s.id (g.node m)))
      place' c' := by
  induction nodes generalizing c found events gates steps place with
  | nil =>
    cases h
    exact ⟨place, by simpa using hl⟩
  | cons m nodes ih =>
    rw [List.foldlM_cons] at h
    obtain ⟨found₁, c₁, hm, h⟩ := bind_eq_ok.1 h
    obtain ⟨st, hh₁⟩ := stitches_addSubprocessBoundary (P := { sub := (· = s) }) hg hs rfl
      (fun r hr => List.mem_singleton.2 hr) (fun r hr => List.mem_singleton.1 hr ▸ hlive)
      (hnodes m List.mem_cons_self) hh hm
    obtain ⟨place₁, hl₁⟩ := hl.withEvent hg hs hid hparent (hnodes m List.mem_cons_self) hm
    obtain ⟨place', hl'⟩ := ih (st.sound hs) hl₁ (fun u hu => st.hasTransition (hlive u hu))
      (fun k hk => hnodes k (List.mem_cons_of_mem _ hk)) hh₁ h
    refine ⟨place', ?_⟩
    rw [List.countP_cons, List.map_cons, List.append_cons]
    simpa [Nat.add_comm, Nat.add_left_comm, Nat.add_assoc] using hl'

theorem Ledger.withSubprocessBoundaries (hg : g.Normal) (hs : Sound g c)
    (hl : Ledger g done gates steps place c) (hid : s.id ∈ done) (hn : s.id = (g.node n).id)
    (hparent : s.parent = (g.node n).process)
    (hlive : ∀ u ∈ s.enter :: s.exits, c.net.hasTransition u)
    (h : addSubprocessBoundaries g showEvents s c = .ok () c') :
    ∃ place', Ledger g done (gates + (g.messagesOf n).length) (steps ++ g.eventSteps showEvents n)
      place' c' := by
  have hcount : (g.messagesOf n).length =
      (g.boundaryEventsOf s.id).countP fun m => decide (IsMessageOn g s.id m) := by
    rw [messagesOf, ← List.countP_eq_length_filter, hn]
    rfl
  rw [hcount, eventSteps, ← hn]
  obtain ⟨found, c₁, c₂, hevents, hraised, hmessages⟩ := addSubprocessBoundaries_eq_ok.1 h
  obtain ⟨place', hl₁⟩ := hl.withEvents hg hs hid hparent hlive (fun _ => id) .nothing hevents
  have hresets : Books g [] c₁ c' :=
    (books_forM_nil (fun _ _ _ _ hrun => books_clearOnEntry hrun) hraised).trans fun _ _ =>
      books_forM_nil (fun _ _ _ _ hrun => books_addResets hrun) hmessages
  obtain ⟨hl', -⟩ := hresets _ _ _ _ hl₁
  rw [List.append_nil] at hl'
  exact ⟨place', hl'⟩

/-! ## Subprocesses one after the other -/

/-- `absorb` changes the processes of nodes only. -/
theorem Ledger.absorbed (s : JoinedSubprocess) (hl : Ledger g done gates steps place c) :
    Ledger g done gates steps place (absorbed s c) := by
  obtain ⟨hconsistent, hlodged, hlisted⟩ := hl
  let move := fun (x : Place) => if x.process = s.id then { x with process := s.parent } else x
  let moveT := fun (x : Transition) => if x.process = s.id then { x with process := s.parent } else x
  have hname : ∀ x, (move x).name = x.name ∧ (move x).role = x.role := fun x => by
    dsimp only [move]
    split <;> exact ⟨rfl, rfl⟩
  have hnameT : ∀ x, (moveT x).name = x.name ∧ (moveT x).label = x.label := fun x => by
    dsimp only [moveT]
    split <;> exact ⟨rfl, rfl⟩
  have hplace : ∀ p, (Construction.absorbed s c).net.place? p = (c.net.place? p).map move := fun p =>
    place?_mapNodes p
  have hlive : ∀ p, (Construction.absorbed s c).net.hasPlace p = c.net.hasPlace p := fun p => by
    rw [Net.hasPlace, Net.hasPlace, hplace, Option.isSome_map]
  have hgate : ∀ p, IsGate (Construction.absorbed s c) p ↔ IsGate c p := by
    intro p
    unfold IsGate
    rw [hplace]
    cases hx : c.net.place? p with
    | none => simp
    | some x => simp [hname]
  have hflows : (Construction.absorbed s c).flowPlaces = c.flowPlaces := rfl
  obtain ⟨hfound, hliving, hflow, hsame, hlost, hgates⟩ := hlodged
  refine ⟨hconsistent.mapNodes (fun x => (hname x).1) fun x => (hnameT x).1,
    ⟨by simpa only [hflows, hlive] using hfound, by simpa only [hlive, hgate] using hliving, ?_, hsame,
      by simpa only [hflows, hlive] using hlost, by simpa only [hgate] using hgates⟩, ?_⟩
  · intro p y hy hrole
    rw [hplace] at hy
    obtain ⟨x, hx, rfl⟩ := Option.map_eq_some_iff.1 hy
    obtain ⟨f, hf, he⟩ := hflow p x hx fun h => hrole ((hname x).2.trans h)
    exact ⟨f, hf, (hname x).1.trans he⟩
  · have htransitions : (Construction.absorbed s c).net.liveTransitions =
        c.net.liveTransitions.map fun e => (e.1, moveT e.2) := liveTransitions_mapNodes _ _
    rw [htransitions, List.forall₂_map_right_iff]
    refine hlisted.imp fun r e hr => hr.kept ?_ (hnameT e.2).1 (hnameT e.2).2
      (fun p => (hgate p).2) fun _ _ _ _ => Iff.rfl
    exact (transition?_mapNodes e.1).trans (congrArg _ hr.live)

theorem Ledger.mono {done' : List String} (hsub : done ⊆ done') (hl : Ledger g done gates steps place c) :
    Ledger g done' gates steps place c :=
  { hl with
    lodged := { hl.lodged with
      same := fun f k hf hk he => (hl.lodged.same f k hf hk he).mono hsub
      lost := fun f p hf hp => (hl.lodged.lost f p hf hp).imp fun _ h => h.mono hsub } }

/-- The place behind a subprocess. -/
theorem Wired.placing (hg : g.Normal) (hs : Sound g c) (hw : Wired g n s c) :
    Placing c (g.node n).outgoing [s.outPlace] := by
  obtain ⟨f, hf, hsource⟩ := hw.behind
  have hmem := (hg.linked.mem_outgoing n f).2 ⟨hs.bound f _ hf, hsource⟩
  obtain ⟨k, hk⟩ := List.length_eq_one_iff.1
    (Nat.le_antisymm (slim hg (NodeKind.isGateway_of_isSubprocess hw.kind)).2 (List.length_pos_of_mem hmem))
  rw [hk] at hmem ⊢
  exact placing_singleton (List.mem_singleton.1 hmem ▸ hf)

/-- One turn of `finish`: the events of the subprocess and its terminate ends are booked. -/
theorem Ledger.withTurn (hg : g.Normal) (hs : Sound g c) (hq : Queue g all (n :: nodes) (s :: l) c)
    (hl : Ledger g done gates steps place c) (h : finish g showEvents s c = .ok () c') :
    ∃ place', Ledger g (s.id :: done) (gates + (g.messagesOf n).length)
      (steps ++ g.finishSteps showEvents n) place' c' := by
  obtain ⟨hw, _⟩ := List.forall₂_cons.1 hq.wired
  have hlive := hq.live s (hq.mem s List.mem_cons_self)
  obtain ⟨_, c₁, hboundaries, hrest⟩ := bind_eq_ok.1 h
  obtain ⟨_, c₂, hterminate, habsorb⟩ := bind_eq_ok.1 hrest
  cases habsorb
  obtain ⟨st, -⟩ := stitches_addSubprocessBoundaries (l := [s]) (P := { sub := (· = s) }) hg hs rfl
    (fun r hr => List.mem_singleton.2 hr) (fun r hr => List.mem_singleton.1 hr ▸ hlive) hboundaries
  obtain ⟨place', hl₁⟩ := (hl.mono (List.subset_cons_self s.id done)).withSubprocessBoundaries hg hs
    List.mem_cons_self hw.joined.id hw.joined.parent hlive hboundaries
  obtain ⟨hl₂, -⟩ := books_terminateSubprocess hg hw.joined.id hw.joined.parent
    ((hw.placing hg hs).kept st.flowPlaces) hterminate _ _ _ _ hl₁
  rw [List.append_assoc] at hl₂
  exact ⟨place', hl₂.absorbed s⟩

/-- All turns of `finish`. -/
theorem Ledger.withTurns (hg : g.Normal) (hs : Sound g c) (hq : Queue g all nodes l c)
    (hl : Ledger g done gates steps place c) (h : l.forM (finish g showEvents) c = .ok () c') :
    ∃ place', Ledger g (done ++ nodes.map fun n => (g.node n).id)
      (gates + (nodes.map fun n => (g.messagesOf n).length).sum)
      (steps ++ nodes.flatMap (g.finishSteps showEvents)) place' c' := by
  induction nodes generalizing l c done gates steps place with
  | nil =>
    cases hq.wired
    cases h
    exact ⟨place, by simpa using hl⟩
  | cons n nodes ih =>
    obtain ⟨s, l, hw, _, rfl⟩ := List.forall₂_cons_left_iff.1 hq.wired
    rw [List.forM] at h
    obtain ⟨_, c₁, hturn, hrest⟩ := bind_eq_ok.1 h
    obtain ⟨st, -⟩ := stitches_of_turn hg hs hq hturn
    obtain ⟨place₁, hl₁⟩ := hl.withTurn hg hs hq hturn
    obtain ⟨place', hl'⟩ := ih (st.sound hs) (hq.stitched st).tail hl₁ hrest
    refine ⟨place', ?_⟩
    rw [List.flatMap_cons, ← List.append_assoc, List.map_cons, List.map_cons, List.sum_cons,
      ← Nat.add_assoc]
    refine hl'.mono fun id hid => ?_
    rw [hw.joined.id] at hid
    simp only [List.cons_append, List.mem_cons, List.mem_append] at hid ⊢
    tauto

/-! ## Places of flows -/

/-- Every place was made for a flow, and no flow has lost its own. -/
structure Sited (g : ProcessGraph) (c : Construction) : Prop where
  live : ∀ f p, c.flowPlaces.lookup f = some p → c.net.hasPlace p
  name : ∀ p x, c.net.place? p = some x → ∃ f, c.flowPlaces.lookup f = some p ∧
    x.name = flowPlaceName (flowRole g (g.flow f)) (g.flow f)

theorem sited_addFlowPlace (hg : Ground g c) (hnew : c.flowPlaces.lookup f = none) (hc : Sited g c)
    (h : addFlowPlace g f c = .ok () c') : Sited g c' := by
  rcases addFlowPlace_eq_ok h with ⟨p, _, hsink, rfl⟩ | ⟨n, p, _, hadd, rfl⟩
  · refine ⟨fun k q hk => ?_, fun q x hx => ?_⟩
    · rcases lookup_register hk with ⟨_, rfl⟩ | ⟨_, hk⟩
      · obtain ⟨j, hj, _⟩ := hg.sink q hsink
        exact hc.live j q hj
      · exact hc.live k q hk
    · obtain ⟨j, hj, hname⟩ := hc.name q x hx
      exact ⟨j, lookup_register_kept hnew hj, hname⟩
  · have hadded := hg.valid.consistent.addPlace hadd
    refine ⟨fun k q hk => ?_, fun q x hx => ?_⟩
    · rw [hasPlace, hadded.place?]
      split
      · rfl
      · rename_i hqp
        rcases lookup_register hk with ⟨_, he⟩ | ⟨_, hk⟩
        · exact absurd he hqp
        · exact hc.live k q hk
    · rw [hadded.place?] at hx
      split at hx
      · rename_i hqp
        cases hx
        exact ⟨f, by rw [hqp, List.lookup_cons_self], rfl⟩
      · obtain ⟨j, hj, hname⟩ := hc.name q x hx
        exact ⟨j, lookup_register_kept hnew hj, hname⟩

theorem sited_of_forM {flows : List FlowId} (hg : Ground g c) (hbound : ∀ f ∈ flows, index f < g.flows.size)
    (hnodup : flows.Nodup) (hnew : ∀ f ∈ flows, c.flowPlaces.lookup f = none) (hc : Sited g c)
    (h : flows.forM (addFlowPlace g) c = .ok () c') : Sited g c' := by
  induction flows generalizing c with
  | nil =>
    cases h
    exact hc
  | cons f flows ih =>
    rw [List.forM] at h
    obtain ⟨_, c₁, hturn, hrest⟩ := bind_eq_ok.1 h
    obtain ⟨hfirst, hnodup⟩ := List.nodup_cons.1 hnodup
    refine ih (hg.addFlowPlace (hbound f List.mem_cons_self) hturn)
      (fun k hk => hbound k (List.mem_cons_of_mem _ hk)) hnodup (fun k hk => ?_)
      (sited_addFlowPlace hg (hnew f List.mem_cons_self) hc hturn) hrest
    obtain ⟨r, hr⟩ : ∃ r, c₁.flowPlaces = (f, r) :: c.flowPlaces := by
      rcases addFlowPlace_eq_ok hturn with ⟨r, _, _, rfl⟩ | ⟨_, r, _, _, rfl⟩ <;> exact ⟨r, rfl⟩
    have hne : k ≠ f := fun he => hfirst (he ▸ hk)
    rw [hr, lookup_register_of_ne hne]
    exact hnew k (List.mem_cons_of_mem _ hk)

theorem sited_of_addFlowPlaces (h : addFlowPlaces g (start g) = .ok () c) : Sited g c :=
  sited_of_forM (ground_start g) (fun _ => mem_sortedFlows.1) (nodup_sortedFlows g) (fun _ _ => rfl)
    ⟨fun _ _ h => (by cases h), fun _ _ h => by cases h⟩ h

/-- The first entries, after `addFlowPlaces`: the flows have their places, and there are no steps. -/
theorem ledger_of_addFlowPlaces (h : addFlowPlaces g (start g) = .ok () c) :
    ∃ place, Ledger g [] 0 [] place c := by
  have hg := ground_of_addFlowPlaces h
  have hsited := sited_of_addFlowPlaces h
  have hnone : c.net.liveTransitions = [] := List.eq_nil_iff_forall_not_mem.2 fun e he => by
    have hlive := mem_liveTransitions.1 he
    rw [hg.transitions] at hlive
    cases hlive
  refine ⟨fun f => (c.flowPlaces.lookup f).getD ⟨0⟩, hg.valid.consistent,
    ⟨fun f p hf _ => by rw [hf]; rfl, fun f hf => ?_, fun p x hx _ => hsited.name p x hx,
      fun f k hf hk he => ?_, fun f p hf hp => ?_, [], List.nodup_nil, rfl, fun p => ?_⟩, ?_⟩
  · obtain ⟨p, hp⟩ := exists_place_of_addFlowPlaces h hf
    rw [hp]
    exact ⟨hsited.live f p hp, hg.role p⟩
  · obtain ⟨p, hp⟩ := exists_place_of_addFlowPlaces h hf
    obtain ⟨q, hq⟩ := exists_place_of_addFlowPlaces h hk
    rw [hp, hq] at he
    cases he
    exact (hg.shared f k _ hp hq).imp_right .inl
  · rw [hsited.live f p hf] at hp
    cases hp
  · exact ⟨fun hp => absurd hp List.not_mem_nil, fun hp => absurd hp (hg.role p)⟩
  · rw [hnone]
    exact .nil

theorem sunk_of_addFlowPlaces (h : addFlowPlaces g (start g) = .ok () c) : Sunk g c := by
  have hg := ground_of_addFlowPlaces h
  refine fun sink hsink => ⟨fun f hf => ⟨sink, List.mem_singleton_self sink, ?_⟩, fun p hp => ?_⟩
  · obtain ⟨hmem, henters⟩ := List.mem_filter.1 hf
    obtain ⟨p, hp⟩ := exists_place_of_addFlowPlaces h (mem_sortedFlows.1 hmem)
    have hpsink := rootSink_of_addFlowPlaces h hp henters
    rw [hsink] at hpsink
    cases hpsink
    exact hp
  · obtain ⟨f, hf, henters⟩ := hg.sink sink hsink
    rw [List.mem_singleton.1 hp]
    exact ⟨f, List.mem_filter.2 ⟨mem_sortedFlows.2 (hg.bound f sink hf), henters⟩, hf⟩

/-! ## The whole -/

/-- The entries before the subprocesses are finished. -/
theorem books_of_parts {c₁ c₂ c₃ : Construction} (hg : g.Normal) (hsupported : Supported g)
    (hnodes : addNodes g c = .ok () c₁) (hjoin : joinSubprocesses g c₁ = .ok l c₂)
    (htasks : addTaskBoundaries g showEvents c₂ = .ok () c₃) :
    Books g (g.sortedNodes.flatMap g.nodeSteps ++ g.subprocessesInnermostFirst.flatMap g.joinSteps ++
      (g.select (·.kind = .task)).flatMap (g.taskEventSteps showEvents)) c c₃ := by
  have hadded : Books g (g.sortedNodes.flatMap g.nodeSteps) c c₁ :=
    books_forM (fun _ _ _ _ _ hrun => books_addNode hg hsupported hrun) hnodes
  exact (hadded.trans fun _ _ => books_joinSubprocesses hg hjoin).trans
    fun _ _ => books_addTaskBoundaries hg htasks

/-- The ledger of `construct`: its steps are those of the catalogue. Flows into the sink were given that. -/
theorem ledger_of_construct (hg : g.Normal) (hsupported : Supported g)
    (h : construct g showEvents (start g) = .ok () c) :
    (∃ place, Ledger g (g.subprocessesInnermostFirst.map fun n => (g.node n).id) g.messageCount
      (g.steps showEvents) place c) ∧
    ∀ f p, c.flowPlaces.lookup f = some p → entersRootEnd g (g.flow f) → c.rootSink = some p := by
  obtain ⟨c₁, c₂, c₃, c₄, c₅, l, hflows, hnodes, hjoin, htasks, hfinish, hroot⟩ := construct_eq_ok h
  have hprep := prepared_of_parts hg hflows hnodes hjoin htasks
  obtain ⟨place, hl₁⟩ := ledger_of_addFlowPlaces hflows
  have hsunk := sunk_of_addFlowPlaces hflows
  obtain ⟨hl₄, hflows₄, hsink₄⟩ := books_of_parts hg hsupported hnodes hjoin htasks _ _ _ _ hl₁
  obtain ⟨st, -⟩ := stitches_finishes hg hprep.sound hprep.queue hfinish
  obtain ⟨place', hl₅⟩ := hl₄.withTurns hg hprep.sound hprep.queue hfinish
  have hsunk₅ := (hsunk.kept hflows₄ hsink₄).kept st.flowPlaces st.rootSink
  obtain ⟨hl, hflows₆, hsink₆⟩ := books_terminateRoot hg hsunk₅ hroot _ _ _ _ hl₅
  refine ⟨⟨place', ?_⟩, fun f p hf henters => ?_⟩
  · simpa [steps, messageCount, List.append_assoc] using hl
  · rw [hflows₆, st.flowPlaces, hflows₄] at hf
    rw [hsink₆, st.rootSink, hsink₄]
    exact rootSink_of_addFlowPlaces hflows hf henters

end Construction

end ProcessNet
