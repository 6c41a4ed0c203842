/-
Finished constructions enact the token game of their graph. Where no process is terminated and no event is
on a subprocess, all that is done once the nodes have their transitions is to join subprocesses to their
surroundings and to add the events on tasks.
-/
import ProcessNet.Proofs.Conversion.Clearance
import ProcessNet.Proofs.Conversion.Doors
import ProcessNet.Proofs.Conversion.Moves

namespace ProcessNet.Construction

open Identifier Net ProcessGraph

variable {places : List (FlowId × PlaceId)} {g : ProcessGraph} {c c' : Construction}
  {showEvents : Bool} {n m : NodeId} {f k : FlowId} {p q : PlaceId} {s : JoinedSubprocess}
  {i o : Multiset FlowId} {label : Option String}

/-! ## Subprocesses -/

/-- The move of the entry that `joinSubprocess` adds: one flow behind each start of the subprocess gets a
token. -/
def entryMoves (g : ProcessGraph) (n : NodeId) : MoveSet := fun i o label =>
  ∃ f ∈ (g.node n).incoming, i = {f} ∧ g.Behind (g.startsOf (g.node n).id) o ∧ label = none

/-- The moves of the exits that `joinSubprocess` adds: a token leaves the subprocess from one of its
normal ends. -/
def exitMoves (g : ProcessGraph) (n : NodeId) : MoveSet :=
  Between (fun f => ∃ e ∈ g.normalEndsOf (g.node n).id, f ∈ (g.node e).incoming)
    (· ∈ (g.node n).outgoing) none

theorem exists_behind {nodes : List NodeId} (h : ∀ s ∈ nodes, ∃ f, f ∈ (g.node s).outgoing) :
    ∃ o, g.Behind nodes o := by
  induction nodes with
  | nil => exact ⟨0, .zero⟩
  | cons s nodes ih =>
    obtain ⟨f, hf⟩ := h s List.mem_cons_self
    obtain ⟨o, ho⟩ := ih fun r hr => h r (List.mem_cons_of_mem _ hr)
    exact ⟨f ::ₘ o, Multiset.Rel.cons (r := fun n f => f ∈ (g.node n).outgoing) hf ho⟩

theorem adds_enter {process : String} {starts : List PlaceId} {x : Transition} {t : TransitionId}
    (hg : g.Normal) (hplaces : SharedAtEnds g places)
    (hin : (g.node n).incoming = [f]) (hp : Placed places f p)
    (hstarts : List.Forall₂ (fun s q => ∃ k, (g.node s).outgoing = [k] ∧ Placed places k q)
      (g.startsOf process) starts) (h : addStep x [p] starts c = .ok t c') (hlabel : x.label = none) :
    Adds places (fun i o label => ∃ f ∈ (g.node n).incoming, i = {f} ∧
      g.Behind (g.startsOf process) o ∧ label = none) 0 ⊥ c c' := by
  have hrel : ∀ o, g.Behind (g.startsOf process) o → Multiset.Rel (Placed places) o starts := by
    intro o ho
    refine (rel_comp_iff.2 ⟨_, Multiset.rel_flip.2 ho, rel_of_forall₂ hstarts⟩).mono ?_
    rintro k _ q _ ⟨s, hk, k', hk', hq⟩
    change k ∈ (g.node s).outgoing at hk
    rw [hk', List.mem_singleton] at hk
    exact hk ▸ hq
  have hsome : ∃ o, g.Behind (g.startsOf process) o := by
    refine exists_behind fun s hs => ?_
    obtain ⟨_, _, k, hk, _⟩ := exists_of_forall₂ hstarts hs
    exact ⟨k, hk ▸ List.mem_singleton_self k⟩
  refine adds_step h (List.nodup_singleton p) ?_ ?_ ?_
  · obtain ⟨o, ho⟩ := hsome
    have hnodup : o.Nodup := nodup_of_rel (Multiset.coe_nodup.2 (nodup_select _)) ho
      fun s _ r _ k hs hr => ((hg.linked.mem_outgoing s k).1 hs).2.symm.trans
        ((hg.linked.mem_outgoing r k).1 hr).2
    refine Multiset.coe_nodup.1 (nodup_of_rel hnodup (hrel o ho) fun k hk j _ q hkq hjq => ?_)
    refine (hplaces k j q hkq hjq).resolve_right fun hend => ?_
    obtain ⟨s, hs, hks⟩ := Multiset.exists_mem_of_rel_of_mem (Multiset.rel_flip.2 ho) hk
    have hstart := (mem_startsOf.1 hs).2.2
    rw [← ((hg.linked.mem_outgoing s k).1 hks).2] at hstart
    have hnot := hend.1
    rw [entersRootEnd, hstart] at hnot
    cases hnot
  · obtain ⟨o, ho⟩ := hsome
    exact ⟨{f}, o, f, hin ▸ List.mem_singleton_self f, rfl, ho, hlabel⟩
  · rintro _ o _ ⟨f', hf', rfl, ho, rfl⟩
    rw [hin, List.mem_singleton] at hf'
    exact ⟨rel_singleton_left.2 ⟨p, hf' ▸ hp, rfl⟩, hrel o ho, hlabel.symm⟩

theorem adds_addExits {id parent : String} {ends : List PlaceId} {exits : List TransitionId}
    {nodes : List NodeId} {ks : List FlowId}
    (hends : List.Forall₂ (fun e q => ∃ f, (g.node e).incoming = [f] ∧ Placed places f q) nodes ends)
    (hout : ks = [k]) (hq : Placed places k q)
    (h : addExits id parent q ends c = .ok exits c') :
    Adds places (Between (fun f => ∃ e ∈ nodes, f ∈ (g.node e).incoming) (· ∈ ks) none) 0 ⊥ c c' := by
  have hturn : ∀ e ∈ ends.zipIdx, ∀ d t d',
      addSilentStep (exitName id parent ends.length e.2) parent [e.1] [q] d = .ok t d' →
      Adds places (Between (fun f => (∃ m ∈ nodes, f ∈ (g.node m).incoming) ∧ Placed places f e.1)
        (· ∈ ks) none) 0 ⊥ d d' := by
    intro e he d t d' hrun
    obtain ⟨m, hm, f, hf, hp⟩ := exists_of_forall₂ hends.flip (List.fst_mem_of_mem_zipIdx he)
    subst hout
    exact adds_between hrun ⟨f, ⟨m, hm, hf ▸ List.mem_singleton_self f⟩, hp⟩
      ⟨k, List.mem_singleton_self k⟩ (fun _ h => h.2) fun _ h => List.mem_singleton.1 h ▸ hq
  refine (adds_mapM hturn h).congr_moves fun i o l => ?_
  constructor
  · rintro ⟨_, _, f, k, hf, hk, rfl, rfl, rfl⟩
    exact ⟨f, k, hf.1, hk, rfl, rfl, rfl⟩
  · rintro ⟨f, k, ⟨m, hm, hf⟩, hk, rfl, rfl, rfl⟩
    obtain ⟨p, hp, f', hf', hplaced⟩ := exists_of_forall₂ hends hm
    obtain ⟨j, hj⟩ := List.mem_iff_getElem?.1 hp
    refine ⟨(p, j), List.mk_mem_zipIdx_iff_getElem?.2 hj, f, k, ⟨⟨m, hm, hf⟩, ?_⟩, hk, rfl, rfl, rfl⟩
    rw [hf', List.mem_singleton] at hf
    exact hf ▸ hplaced

theorem adds_joinSubprocess (hg : g.Normal) (hplaces : SharedAtEnds g places)
    (hn : (g.node n).kind.isSubprocess) (h : joinSubprocess g n c = .ok s c') :
    Adds places (entryMoves g n ⊔ exitMoves g n) 0 ⊥ c c' := by
  intro moves₀ start₀ finish₀ hc
  have hslim : ∀ m, (g.node m).kind.isGateway = false → g.Slim m := inGatewayForm_iff.1 hg.form
  have hkind := NodeKind.isGateway_of_isSubprocess hn
  obtain ⟨hid, _, before, starts, ends, c₁, hbefore, hbehind, hstarts, hends, henter, hexits⟩ :=
    joinSubprocess_eq_ok h
  obtain ⟨_, f, hin, hp⟩ := inPlace_placed hbefore (hslim n hkind).1
  obtain ⟨_, k, hout, hq⟩ := outPlace_placed hbehind (hslim n hkind).2
  rw [hid] at hstarts hends
  rw [hc.flowPlaces] at hp hq
  have hstarts' : List.Forall₂ (fun s q => ∃ k, (g.node s).outgoing = [k] ∧ Placed places k q)
      (g.startsOf (g.node n).id) starts := by
    refine ((List.forall₂_and_left _ _).2 ⟨fun s hs => (mem_startsOf.1 hs).2.2, hstarts⟩).imp ?_
    rintro s q ⟨hstart, hq⟩
    obtain ⟨_, k, hk, hplaced⟩ := outPlace_placed hq (hslim s (NodeKind.isGateway_of_isStart hstart)).2
    exact ⟨k, hk, hc.flowPlaces ▸ hplaced⟩
  have hends' : List.Forall₂ (fun e q => ∃ f, (g.node e).incoming = [f] ∧ Placed places f q)
      (g.normalEndsOf (g.node n).id) ends := by
    refine ((List.forall₂_and_left _ _).2 ⟨fun e he => (mem_normalEndsOf.1 he).2.2, hends⟩).imp ?_
    rintro e q ⟨hend, hq⟩
    obtain ⟨_, f, hf, hplaced⟩ := inPlace_placed hq (hslim e (by rw [hend]; rfl)).1
    exact ⟨f, hf, hc.flowPlaces ▸ hplaced⟩
  have hboth := (adds_enter hg hplaces hin hp hstarts' henter rfl).trans
    (adds_addExits hends' hout hq hexits)
  rw [Multiset.add_zero, sup_bot_eq] at hboth
  exact hboth _ _ _ hc

/-! ## Events on tasks -/

/-- The move of `addTaskBoundary`: a token in front of a task goes to a flow behind an event on it. -/
def eventMoves (g : ProcessGraph) (showEvents : Bool) (task event : NodeId) : MoveSet :=
  Between (· ∈ (g.node task).incoming) (· ∈ (g.node event).outgoing)
    (boundaryLabel showEvents (g.node event))

theorem adds_addTaskBoundary {task event : NodeId} (hg : g.Normal)
    (htask : (g.node task).kind.isGateway = false) (hevent : (g.node event).kind.isGateway = false)
    (h : addTaskBoundary g showEvents task event c = .ok () c') :
    Adds places (eventMoves g showEvents task event) 0 ⊥ c c' := by
  intro moves₀ start₀ finish₀ hc
  have hslim : ∀ m, (g.node m).kind.isGateway = false → g.Slim m := inGatewayForm_iff.1 hg.form
  obtain ⟨p, c₁, hp, h₁⟩ := bind_eq_ok.1 h
  obtain ⟨rfl, f, hf, hp⟩ := inPlace_placed hp (hslim task htask).1
  obtain ⟨q, c₂, hq, h₂⟩ := bind_eq_ok.1 h₁
  obtain ⟨rfl, k, hk, hq⟩ := outPlace_placed hq (hslim event hevent).2
  obtain ⟨t, c₃, ht, h₃⟩ := bind_eq_ok.1 h₂
  cases h₃
  rw [hc.flowPlaces] at hp hq
  exact adds_single ht hf hk hp hq _ _ _ hc

theorem adds_addTaskBoundaries (hg : g.Normal) (h : addTaskBoundaries g showEvents c = .ok () c') :
    Adds places (fun i o label => ∃ task ∈ g.select (·.kind = .task),
      ∃ event ∈ g.boundaryEventsOf (g.node task).id, eventMoves g showEvents task event i o label)
      0 ⊥ c c' := by
  refine adds_forM_moves (fun task htask d d' hrun => ?_) h
  refine adds_forM_moves (fun event hevent e e' hrun => ?_) hrun
  have htask := of_decide_eq_true (mem_select.1 htask).2
  obtain ⟨_, trigger, hevent⟩ := mem_boundaryEventsOf.1 hevent
  exact adds_addTaskBoundary hg (by rw [htask]; rfl) (by rw [hevent]; rfl) hrun

/-! ## The rest of a construction -/

theorem adds_absorb (h : absorb s c = .ok () c') : Adds places ⊥ 0 ⊥ c c' := by
  cases h
  intro moves₀ start₀ finish₀ hc
  have hlabel : ∀ t, (absorbed s c).net.label? t = c.net.label? t := by
    intro t
    rw [Net.label?, Net.label?, absorbed, transition?_mapNodes]
    cases c.net.transition? t with
    | none => rfl
    | some x =>
      dsimp only [Option.map_some, Option.bind_some]
      split <;> rfl
  have hlive : ∀ t, (absorbed s c).net.hasTransition t = c.net.hasTransition t := by
    intro t
    rw [hasTransition, absorbed, transition?_mapNodes, Option.isSome_map, hasTransition]
  have hdrawn : ∀ t i o, Drawn places c.net t i o → Drawn places (absorbed s c).net t i o := by
    rintro t i o ⟨ins, outs, hi, ho, hcarries⟩
    exact ⟨ins, outs, hi, ho, hcarries.of_arcs fun _ _ => Iff.rfl⟩
  rw [sup_bot_eq, Multiset.add_zero, sup_bot_eq]
  refine ⟨consistent_absorbed s hc.consistent, hc.flowPlaces, fun t ht => ?_,
    fun i o label hmove => ?_, hc.initial, hc.final⟩
  · obtain ⟨i, o, hmove, hd⟩ := hc.told t ((hlive t).symm.trans ht)
    exact ⟨i, o, (hlabel t).symm ▸ hmove, hdrawn t i o hd⟩
  · obtain ⟨t, ht, hl, hd⟩ := hc.made i o label hmove
    exact ⟨t, (hlive t).trans ht, (hlabel t).trans hl, hdrawn t i o hd⟩

/-- Without events on it and terminate ends in it `finish` only hands a subprocess over. -/
theorem adds_finish_of_none (hevents : g.boundaryEventsOf s.id = [])
    (hends : g.terminationsOf s.id = []) (h : Construction.finish g showEvents s c = .ok () c') :
    Adds places ⊥ 0 ⊥ c c' := by
  obtain ⟨_, c₁, h₁, h⟩ := bind_eq_ok.1 h
  obtain ⟨_, c₂, h₂, h₃⟩ := bind_eq_ok.1 h
  simp only [addSubprocessBoundaries, hevents] at h₁
  cases h₁
  simp only [terminateSubprocess, hends] at h₂
  cases h₂
  exact adds_absorb h₃

theorem eq_of_terminateRoot (hends : g.terminationsOf g.processId = [])
    (h : terminateRoot g c = .ok () c') : c' = c := by
  simp only [terminateRoot, hends] at h
  cases h
  rfl

/-! ## The whole construction -/

/-- What `construct` relies on to enact the game: no inclusive gateways, no terminate ends, no events on
subprocesses, and tokens that come into the ends one by one. -/
structure Enactable (g : ProcessGraph) : Prop where
  normal : g.Normal
  apart : ∀ n, (g.node n).kind.isSubprocess → (g.node n).id ≠ g.processId
  inclusive : ∀ n direction, (g.node n).kind ≠ .gateway .inclusive direction
  terminate : ∀ n, (g.node n).kind ≠ .endEvent .terminate
  events : ∀ n, (g.node n).kind.isSubprocess → g.boundaryEventsOf (g.node n).id = []
  ends : g.EndsApart

theorem Enactable.terminationsOf_eq_nil (hg : Enactable g) (process : String) :
    g.terminationsOf process = [] :=
  List.eq_nil_iff_forall_not_mem.2 fun n hn => hg.terminate n (mem_terminationsOf.1 hn).2.2

/-- All moves that `construct` adds. -/
def allMoves (g : ProcessGraph) (showEvents : Bool) : MoveSet := fun i o label =>
  (∃ n ∈ g.sortedNodes, nodeMoves g n i o label) ∨
  (∃ n ∈ g.subprocessesInnermostFirst, (entryMoves g n ⊔ exitMoves g n) i o label) ∨
  ∃ task ∈ g.select (·.kind = .task), ∃ event ∈ g.boundaryEventsOf (g.node task).id,
    eventMoves g showEvents task event i o label

theorem final_of_addFlowPlaces (h : addFlowPlaces g c = .ok () c') : c'.final = c.final := by
  refine (rel_of_forM (R := fun c c' => c.final = c'.final) (fun _ => rfl)
    (fun _ _ _ => Eq.trans) (fun f _ s s' hrun => ?_) h).symm
  rcases addFlowPlace_eq_ok hrun with ⟨_, _, _, rfl⟩ | ⟨_, _, _, _, rfl⟩ <;> rfl

theorem charted_of_ground (hc : Ground g c) (hfinal : c.final = ∅) :
    Charted c.flowPlaces ⊥ 0 ⊥ c where
  consistent := hc.valid.consistent
  flowPlaces := rfl
  told t ht := by
    rw [hasTransition, hc.transitions] at ht
    cases ht
  made _ _ _ h := h.elim
  initial := ⟨0, .zero, by rw [hc.unmarked]; rfl⟩
  final p := by
    rw [hfinal]
    refine ⟨Nat.zero_le _, fun h => absurd h (Nat.lt_irrefl 0), ?_⟩
    rintro ⟨_, h, _⟩
    exact h.elim

theorem charted_of_construct (hg : Enactable g) (h : construct g showEvents (start g) = .ok () c) :
    ∃ ground, Ground g ground ∧ addFlowPlaces g (start g) = .ok () ground ∧
      Charted ground.flowPlaces (allMoves g showEvents) (g.sortedNodes.map (nodeStart g)).sum
        (fun f => ∃ n ∈ g.sortedNodes, nodeFinish g n f) c := by
  obtain ⟨ground, c₁, c₂, c₃, c₄, l, hflows, hnodes, hjoin, htasks, hfinish, hroot⟩ :=
    construct_eq_ok h
  have hground := ground_of_addFlowPlaces hflows
  have hplaces : SharedAtEnds g ground.flowPlaces := hground.shared
  have h₀ := charted_of_ground hground (final_of_addFlowPlaces hflows)
  have h₁ : Adds ground.flowPlaces _ _ _ ground c₁ := adds_forM (fun n _ _ _ hrun =>
    adds_addNode hg.normal hplaces hg.ends (hg.inclusive n) hrun) hnodes
  have h₂ : Adds ground.flowPlaces _ 0 ⊥ c₁ c₂ := adds_mapM (fun n hn _ _ _ hrun =>
    adds_joinSubprocess hg.normal hplaces (mem_subprocessesInnermostFirst.1 hn).2 hrun) hjoin
  have h₃ : Adds ground.flowPlaces _ 0 ⊥ c₂ c₃ := adds_addTaskBoundaries hg.normal htasks
  have hids : ∀ s ∈ l, ∃ n, (g.node n).kind.isSubprocess ∧ s.id = (g.node n).id := by
    obtain ⟨_, hall⟩ := forall₂_of_mapM (R := fun _ _ => True) (fun _ => trivial)
      (fun _ _ _ _ _ => trivial) (fun _ _ _ _ _ _ => trivial) hjoin
    intro s hs
    obtain ⟨n, hn, _, _, _, hrun, _⟩ := exists_of_forall₂ hall.flip hs
    exact ⟨n, (mem_subprocessesInnermostFirst.1 hn).2, (joinSubprocess_eq_ok hrun).1⟩
  have h₄ : Adds ground.flowPlaces _ 0 ⊥ c₃ c₄ := adds_forM_moves (A := fun _ => ⊥)
    (fun s hs _ _ hrun => by
      obtain ⟨n, hn, hid⟩ := hids s hs
      exact adds_finish_of_none (hid ▸ hg.events n hn) (hg.terminationsOf_eq_nil _) hrun) hfinish
  obtain rfl := eq_of_terminateRoot (hg.terminationsOf_eq_nil _) hroot
  refine ⟨ground, hground, hflows, ?_⟩
  have hall : Adds ground.flowPlaces (allMoves g showEvents) (g.sortedNodes.map (nodeStart g)).sum
      (fun f => ∃ n ∈ g.sortedNodes, nodeFinish g n f) ground c :=
    (((h₁.trans h₂).trans h₃).trans h₄).congr (fun i o label => by simp [allMoves, or_assoc])
      (by simp) fun f => by simp
  have hcharted := hall ⊥ 0 ⊥ h₀
  rwa [bot_sup_eq, Multiset.zero_add, bot_sup_eq] at hcharted

/-! ## The moves of the graph -/

theorem moves_of_nodeMoves (h : nodeMoves g n i o label) : g.Moves showEvents n i o label := by
  cases hkind : (g.node n).kind with
  | task | catchEvent | throwEvent =>
    rw [nodeMoves, hkind] at h
    obtain ⟨f, k, hf, hk, rfl, rfl, rfl⟩ := h
    exact .step (by rw [hkind]; rfl) hf hk
  | gateway kind direction =>
    rw [nodeMoves, hkind] at h
    cases kind with
    | exclusive =>
      obtain ⟨f, k, hf, hk, rfl, rfl, rfl⟩ := h
      exact .choose hkind hf hk
    | parallel =>
      obtain ⟨rfl, rfl, rfl⟩ := h
      exact .synchronize hkind
    | inclusive => exact h.elim
  | subprocess | startEvent | endEvent | boundaryEvent =>
    rw [nodeMoves, hkind] at h
    exact h.elim

theorem nodeMoves_of_isStep (h : (g.node n).kind.isStep) : nodeMoves g n =
    Between (· ∈ (g.node n).incoming) (· ∈ (g.node n).outgoing) (g.node n).displayName? := by
  unfold nodeMoves
  cases hkind : (g.node n).kind with
  | task | catchEvent | throwEvent => rfl
  | subprocess | startEvent | endEvent | boundaryEvent | gateway =>
    rw [hkind] at h
    cases h

theorem allMoves_iff : allMoves g showEvents i o label ↔ ∃ n, g.Moves showEvents n i o label := by
  constructor
  · rintro (⟨n, _, h⟩ | ⟨n, hn, h | h⟩ | ⟨task, htask, event, hevent, h⟩)
    · exact ⟨n, moves_of_nodeMoves h⟩
    · obtain ⟨f, hf, rfl, ho, rfl⟩ := h
      exact ⟨n, .enter (mem_subprocessesInnermostFirst.1 hn).2 hf ho⟩
    · obtain ⟨f, k, ⟨e, he, hf⟩, hk, rfl, rfl, rfl⟩ := h
      obtain ⟨_, hprocess, hend⟩ := mem_normalEndsOf.1 he
      exact ⟨n, .leave (mem_subprocessesInnermostFirst.1 hn).2 hend hprocess hf hk⟩
    · obtain ⟨f, k, hf, hk, rfl, rfl, rfl⟩ := h
      obtain ⟨_, trigger, hkind⟩ := mem_boundaryEventsOf.1 hevent
      exact ⟨task, .interrupt (of_decide_eq_true (mem_select.1 htask).2) hkind hf hk⟩
  · rintro ⟨n, h⟩
    -- each kind of move is that of a node itself, of a subprocess or of an event on a task
    have hn := h.lt
    have hsorted := mem_sortedNodes.2 hn
    cases h with
    | step hstep hf hk =>
      refine .inl ⟨n, hsorted, ?_⟩
      rw [nodeMoves_of_isStep hstep]
      exact ⟨_, _, hf, hk, rfl, rfl, rfl⟩
    | @interrupt event _ _ _ htask hevent hf hk =>
      refine .inr (.inr ⟨n, mem_select.2 ⟨hn, decide_eq_true htask⟩, event,
        mem_boundaryEventsOf.2 ⟨lt_of_kind ?_, _, hevent⟩, _, _, hf, hk, rfl, rfl, rfl⟩)
      rw [hevent]
      exact NodeKind.noConfusion
    | synchronize hkind =>
      refine .inl ⟨n, hsorted, ?_⟩
      rw [nodeMoves, hkind]
      exact ⟨rfl, rfl, rfl⟩
    | choose hkind hf hk =>
      refine .inl ⟨n, hsorted, ?_⟩
      rw [nodeMoves, hkind]
      exact ⟨_, _, hf, hk, rfl, rfl, rfl⟩
    | enter hsub hf ho =>
      exact .inr (.inl ⟨n, mem_subprocessesInnermostFirst.2 ⟨hn, hsub⟩, .inl ⟨_, hf, rfl, ho, rfl⟩⟩)
    | @leave e _ _ hsub hend hprocess hf hk =>
      refine .inr (.inl ⟨n, mem_subprocessesInnermostFirst.2 ⟨hn, hsub⟩,
        .inr ⟨_, _, ⟨e, mem_normalEndsOf.2 ⟨lt_of_kind ?_, hprocess, hend⟩, hf⟩, hk, rfl, rfl, rfl⟩⟩)
      rw [hend]
      exact NodeKind.noConfusion

theorem exists_nodeFinish_iff : (∃ n ∈ g.sortedNodes, nodeFinish g n f) ↔ g.EntersEnd f := by
  constructor
  · rintro ⟨n, _, hkind, hprocess, hf⟩
    exact ⟨n, hkind, hprocess, hf⟩
  · rintro ⟨n, hkind, hprocess, hf⟩
    refine ⟨n, mem_sortedNodes.2 (lt_of_kind ?_), hkind, hprocess, hf⟩
    rw [hkind]
    exact NodeKind.noConfusion

/-- No flow that a move takes from leads into an end of the root process. -/
theorem not_entersRootEnd_of_moves (hg : Enactable g) (h : g.Moves showEvents n i o label)
    (hf : f ∈ i) : entersRootEnd g (g.flow f) = false := by
  have hnode : ∀ {m f'}, f' ∈ (g.node m).incoming → f ∈ ({f'} : Multiset FlowId) →
      (g.flow f).target = m := by
    intro m f' hf' he
    rw [Multiset.mem_singleton.1 he]
    exact ((hg.normal.linked.mem_incoming m f').1 hf').2
  have hkind : ∀ {m}, (g.flow f).target = m → (g.node m).kind ≠ .endEvent .normal →
      entersRootEnd g (g.flow f) = false := by
    intro m hm hne
    refine Bool.eq_false_iff.2 fun henters => hne ?_
    rw [← hm]
    exact (kind_of_entersRootEnd henters).1
  cases h with
  | step hstep hf' =>
    refine hkind (hnode hf' hf) fun he => ?_
    rw [he] at hstep
    cases hstep
  | interrupt htask _ hf' => exact hkind (hnode hf' hf) (by rw [htask]; exact NodeKind.noConfusion)
  | synchronize hgateway =>
    refine hkind ((hg.normal.linked.mem_incoming n f).1 hf).2 ?_
    rw [hgateway]
    exact NodeKind.noConfusion
  | choose hgateway hf' =>
    exact hkind (hnode hf' hf) (by rw [hgateway]; exact NodeKind.noConfusion)
  | enter hsub hf' =>
    refine hkind (hnode hf' hf) fun he => ?_
    rw [he] at hsub
    cases hsub
  | leave hsub _ hprocess hf' =>
    -- The end lies in a subprocess, so it is none of the root process.
    refine Bool.eq_false_iff.2 fun henters => hg.apart n hsub ?_
    rw [← hprocess, ← hnode hf' hf]
    exact (kind_of_entersRootEnd henters).2

theorem Charted.enacts {start₀ : Multiset FlowId} {finish₀ : FlowId → Prop} (hg : Enactable g)
    (hplaces : SharedAtEnds g places)
    (hc : Charted places (allMoves g showEvents) start₀ finish₀ c) :
    c.net.Enacts (Placed places) (g.game showEvents) where
  functional _ _ _ := Placed.unique
  told t ht := by
    obtain ⟨i, o, hmove, ins, outs, hi, ho, hcarries⟩ := hc.told t ht
    exact ⟨i, o, ins, outs, allMoves_iff.1 hmove, hi, ho, hcarries⟩
  made i o label hmove := by
    obtain ⟨t, ht, hlabel, ins, outs, hi, ho, hcarries⟩ := hc.made i o label (allMoves_iff.2 hmove)
    exact ⟨t, ins, outs, ht, hlabel, hi, ho, hcarries⟩
  own i o label hmove f hf k p hp hq := by
    obtain ⟨n, hmove⟩ := hmove
    refine (hplaces f k p hp hq).resolve_right fun hend => ?_
    rw [not_entersRootEnd_of_moves hg hmove hf] at hend
    cases hend.1

end ProcessNet.Construction
