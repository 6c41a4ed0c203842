/-
Entries in the ledger: what the single parts of a construction add to it. Nodes, subprocesses, events on
tasks and terminate ends add the steps that the catalogue says, one part after the other; resets add none.
-/
import ProcessNet.Proofs.Conversion.Clearance
import ProcessNet.Proofs.Conversion.Doors
import ProcessNet.Proofs.Conversion.Ledger
import ProcessNet.Proofs.Conversion.Moves

namespace ProcessNet.Construction

open Identifier Net ProcessGraph

variable {g : ProcessGraph} {c c' : Construction} {f k : FlowId} {p q : PlaceId} {t : TransitionId}
  {n m : NodeId} {T : List Step} {showEvents : Bool} {fs ks : List FlowId} {ps qs : List PlaceId}

/-! ## Lists side by side -/

section Lists

variable {α β γ : Type} {R : α → β → Prop} {l : List α} {l' : List β}

theorem forall₂_zipIdx (h : List.Forall₂ R l l') (i : Nat) :
    List.Forall₂ (fun a b => R a.1 b.1 ∧ a.2 = b.2) (l.zipIdx i) (l'.zipIdx i) := by
  induction h generalizing i with
  | nil => exact .nil
  | cons hab _ ih => exact .cons ⟨hab, rfl⟩ (ih (i + 1))

theorem forall₂_zip (h : List.Forall₂ R l l') :
    List.Forall₂ (fun a e => e.1 = a ∧ R a e.2) l (l.zip l') := by
  induction h with
  | nil => exact .nil
  | cons hab _ ih => exact .cons ⟨rfl, hab⟩ ih

theorem forall₂_concat {a : α} {b : β} :
    List.Forall₂ R (l ++ [a]) (l' ++ [b]) ↔ List.Forall₂ R l l' ∧ R a b := by
  rw [← List.forall₂_reverse_iff, List.reverse_append, List.reverse_append, List.reverse_singleton,
    List.reverse_singleton, List.singleton_append, List.singleton_append, List.forall₂_cons,
    List.forall₂_reverse_iff, and_comm]

theorem forall₂_mem_left (h : List.Forall₂ R l l') : List.Forall₂ (fun a b => a ∈ l ∧ R a b) l l' :=
  (List.forall₂_and_left _ _).2 ⟨fun _ => id, h⟩

end Lists

/-! ## Places that are looked up -/

theorem Placing.of_forall₂ (h : List.Forall₂ (Placed c.flowPlaces) fs ps) : Placing c fs ps where
  place _ hf := exists_of_forall₂ h hf
  flow _ hp := exists_of_forall₂ h.flip hp

theorem Placing.of_perm {fs' : List FlowId} (h : Placing c fs ps) (hperm : fs'.Perm fs) :
    Placing c fs' ps where
  place f hf := h.place f (hperm.mem_iff.1 hf)
  flow p hp := by
    obtain ⟨f, hf, hlookup⟩ := h.flow p hp
    exact ⟨f, hperm.mem_iff.2 hf, hlookup⟩

theorem Placing.flatMap {α : Type} {flows : α → List FlowId} {l : List α}
    (h : List.Forall₂ (fun a p => Placing c (flows a) [p]) l ps) : Placing c (l.flatMap flows) ps where
  place f hf := by
    obtain ⟨a, ha, hf⟩ := List.mem_flatMap.1 hf
    obtain ⟨p, hp, hplacing⟩ := exists_of_forall₂ h ha
    obtain ⟨q, hq, hlookup⟩ := hplacing.place f hf
    exact ⟨p, hp, List.mem_singleton.1 hq ▸ hlookup⟩
  flow p hp := by
    obtain ⟨a, ha, hplacing⟩ := exists_of_forall₂ h.flip hp
    obtain ⟨f, hf, hlookup⟩ := hplacing.flow p (List.mem_singleton_self p)
    exact ⟨f, List.mem_flatMap.2 ⟨a, ha, hf⟩, hlookup⟩

theorem placing_inPlace (hslim : g.Slim n) (h : inPlace g n c = .ok p c') :
    c' = c ∧ Placing c (g.node n).incoming [p] := by
  obtain ⟨hc, f, hf, hp⟩ := inPlace_placed h hslim.1
  exact ⟨hc, hf ▸ placing_singleton hp⟩

theorem placing_outPlace (hslim : g.Slim n) (h : outPlace g n c = .ok p c') :
    c' = c ∧ Placing c (g.node n).outgoing [p] := by
  obtain ⟨hc, f, hf, hp⟩ := outPlace_placed h hslim.2
  exact ⟨hc, hf ▸ placing_singleton hp⟩

/-- `sortedPlaces` answers the places of flows in the order of their ids. -/
theorem sortedPlaces_inOrder (h : sortedPlaces g fs c = .ok ps c') :
    c' = c ∧ List.Forall₂ (Placed c.flowPlaces) (g.inOrder fs) ps := by
  obtain ⟨rfl, hall⟩ := forall₂_of_mapM (R := Eq) Eq.refl (fun _ _ _ => Eq.trans)
    (fun f _ s p s' hf => (flowPlace_eq_ok.1 hf).2.symm) h
  refine ⟨rfl, hall.imp ?_⟩
  rintro f p ⟨_, _, rfl, hrun, rfl⟩
  exact (flowPlace_eq_ok.1 hrun).1

/-! ## Nodes -/

theorem slim (hg : g.Normal) (hn : (g.node n).kind.isGateway = false) : g.Slim n :=
  inGatewayForm_iff.1 hg.form n hn

theorem books_addNodeStep {label : Option String} (hslim : g.Slim n)
    (h : addNodeStep g n label c = .ok () c') : Books g [g.passStep n label] c c' := by
  obtain ⟨p, c₁, hp, h₁⟩ := bind_eq_ok.1 h
  obtain ⟨rfl, hp⟩ := placing_inPlace hslim hp
  obtain ⟨q, c₂, hq, h₂⟩ := bind_eq_ok.1 h₁
  obtain ⟨rfl, hq⟩ := placing_outPlace hslim hq
  obtain ⟨t, c₃, ht, h₃⟩ := bind_eq_ok.1 h₂
  cases h₃
  exact books_addStep ht rfl rfl hp hq

theorem books_addChoices (hps : List.Forall₂ (Placed c.flowPlaces) (g.inOrder (g.node n).incoming) ps)
    (hqs : List.Forall₂ (Placed c.flowPlaces) (g.inOrder (g.node n).outgoing) qs)
    (h : addChoices (g.node n) ps qs c = .ok () c') : Books g (g.choiceSteps n) c c' := by
  have hbranches : List.Forall₂ (fun a b : _ × _ => Placed c.flowPlaces a.1 b.1 ∧ Placed c.flowPlaces a.2 b.2)
      (g.branches n) (ps.flatMap fun p => qs.map fun q => (p, q)) :=
    List.rel_flatMap hps fun f p hp => List.rel_map (fun k q hq => ⟨hp, hq⟩) hqs
  rw [choiceSteps, List.map_eq_flatMap]
  refine books_forM₂ (forall₂_zipIdx hbranches 0) ?_ h
  rintro ⟨⟨f, k⟩, i⟩ ⟨⟨p, q⟩, j⟩ ⟨⟨hp, hq⟩, hij⟩ d d' hflows _ hrun
  obtain ⟨t, d₁, ht, hrun⟩ := bind_eq_ok.1 hrun
  cases hrun
  cases hij
  exact books_addStep ht rfl rfl ((placing_singleton hp).kept hflows) ((placing_singleton hq).kept hflows)

theorem books_addGateway {kind : GatewayKind} {direction : GatewayDirection}
    (hkind : (g.node n).kind = .gateway kind direction) (hinclusive : kind ≠ .inclusive)
    (h : addGateway g n kind direction c = .ok () c') : Books g (g.nodeSteps n) c c' := by
  simp only [addGateway] at h
  split at h
  · rename_i hone
    have hstep := books_addNodeStep (g := g) ⟨Nat.le_of_eq hone.2.1, Nat.le_of_eq hone.2.2⟩ h
    rw [nodeSteps, hkind]
    cases kind with
    | parallel => exact hstep
    | exclusive =>
      change Books g (if g.IsPlain n direction then _ else _) c c'
      rwa [if_pos (show g.IsPlain n direction from hone)]
    | inclusive => exact absurd rfl hinclusive
  · rename_i hmany
    split at h
    · cases h
    split at h
    · cases h
    obtain ⟨ps, c₁, hps, h₁⟩ := bind_eq_ok.1 h
    obtain ⟨rfl, hps⟩ := sortedPlaces_inOrder hps
    obtain ⟨qs, c₂, hqs, h₂⟩ := bind_eq_ok.1 h₁
    obtain ⟨rfl, hqs⟩ := sortedPlaces_inOrder hqs
    rw [nodeSteps, hkind]
    cases kind with
    | parallel =>
      obtain ⟨t, c₃, ht, h₃⟩ := bind_eq_ok.1 h₂
      cases h₃
      exact books_addStep ht rfl rfl
        ((Placing.of_forall₂ hps).of_perm (List.mergeSort_perm _ _).symm)
        ((Placing.of_forall₂ hqs).of_perm (List.mergeSort_perm _ _).symm)
    | exclusive =>
      change Books g (if g.IsPlain n direction then _ else _) c₂ c'
      rw [if_neg (show ¬ g.IsPlain n direction from hmany)]
      exact books_addChoices hps hqs h₂
    | inclusive => exact absurd rfl hinclusive

theorem books_markStart (h : markStart p c = .ok () c') : Books g [] c c' := by
  obtain ⟨m, -, rfl⟩ := markStart_eq_ok.1 h
  exact books_of_same id rfl rfl (fun _ => rfl) rfl fun _ _ _ => Iff.rfl

/-- No gateway is of the kind that nets have no counterpart for. -/
def Supported (g : ProcessGraph) : Prop := ∀ n direction, (g.node n).kind ≠ .gateway .inclusive direction

theorem books_addNode (hg : g.Normal) (hsupported : Supported g) (h : addNode g n c = .ok () c') :
    Books g (g.nodeSteps n) c c' := by
  have hslim : (g.node n).kind.isGateway = false → g.Slim n := slim hg
  unfold addNode at h
  cases hkind : (g.node n).kind with
  | startEvent trigger =>
    simp only [hkind] at h
    obtain ⟨p, c₁, hp, h₁⟩ := bind_eq_ok.1 h
    obtain ⟨_, _, _, rfl⟩ := outPlace_eq_ok.1 hp
    rw [nodeSteps, hkind]
    split at h₁
    · exact books_markStart h₁
    · cases h₁
      exact .refl _
  | endEvent trigger =>
    simp only [hkind] at h
    obtain ⟨p, c₁, hp, h₁⟩ := bind_eq_ok.1 h
    obtain ⟨_, _, _, rfl⟩ := inPlace_eq_ok.1 hp
    rw [nodeSteps, hkind]
    split at h₁
    · cases h₁
      exact books_of_same id rfl rfl (fun _ => rfl) rfl fun _ _ _ => Iff.rfl
    · cases h₁
      exact .refl _
  | task | catchEvent | throwEvent =>
    simp only [hkind] at h
    rw [nodeSteps, hkind]
    exact books_addNodeStep (hslim (by rw [hkind]; rfl)) h
  | gateway kind direction =>
    simp only [hkind] at h
    refine books_addGateway hkind ?_ h
    rintro rfl
    exact hsupported n direction hkind
  | subprocess | boundaryEvent =>
    simp only [hkind] at h
    cases h
    rw [nodeSteps, hkind]
    exact .refl _

/-! ## Subprocesses -/

theorem books_joinSubprocess (hg : g.Normal) (hn : (g.node n).kind.isSubprocess)
    {s : JoinedSubprocess} (h : joinSubprocess g n c = .ok s c') : Books g (g.joinSteps n) c c' := by
  obtain ⟨hid, hparent, before, starts, ends, c₁, hbefore, hbehind, hstarts, hends, henter, hexits⟩ :=
    joinSubprocess_eq_ok h
  have hslim := slim hg (NodeKind.isGateway_of_isSubprocess hn)
  obtain ⟨-, hbefore⟩ := placing_inPlace hslim hbefore
  obtain ⟨-, hbehind⟩ := placing_outPlace hslim hbehind
  rw [hid, hparent] at henter
  have hentry : Books g [g.entryStep n] c c₁ := by
    refine books_addStep henter rfl rfl hbefore (Placing.flatMap ?_)
    rw [hid] at hstarts
    refine (forall₂_mem_left hstarts).imp fun m p hm => ?_
    obtain ⟨_, _, hstart⟩ := mem_startsOf.1 hm.1
    exact (placing_outPlace (slim hg (NodeKind.isGateway_of_isStart hstart)) hm.2).2
  change Books g ([g.entryStep n] ++ g.exitSteps n) c c'
  refine hentry.trans fun hflows _ => ?_
  have hlen := hends.length_eq
  rw [hid] at hends hlen
  rw [exitSteps, List.map_eq_flatMap]
  refine books_mapM₂ (forall₂_zipIdx (forall₂_mem_left hends) 0) ?_ hexits
  rintro ⟨e, i⟩ ⟨p, j⟩ ⟨⟨he, hp⟩, hij⟩ d u d' hflows' _ hrun
  cases hij
  have hkind : (g.node e).kind.isGateway = false := by rw [(mem_normalEndsOf.1 he).2.2]; rfl
  refine books_addStep hrun ?_ rfl
    ((placing_inPlace (slim hg hkind) hp).2.kept (hflows'.trans hflows))
    (hbehind.kept (hflows'.trans hflows))
  rw [hid, hparent, ← hlen]

theorem books_joinSubprocesses (hg : g.Normal) {l : List JoinedSubprocess}
    (h : joinSubprocesses g c = .ok l c') :
    Books g (g.subprocessesInnermostFirst.flatMap g.joinSteps) c c' := by
  refine books_mapM₂ (R := fun a b => a = b ∧ a ∈ g.subprocessesInnermostFirst)
    (List.forall₂_same.2 fun a ha => ⟨rfl, ha⟩) ?_ h
  rintro n _ ⟨rfl, hn⟩ d s d' _ _ hrun
  exact books_joinSubprocess hg (mem_subprocessesInnermostFirst.1 hn).2 hrun

/-! ## Events on tasks -/

theorem isGateway_of_boundaryEvent {trigger : BoundaryTrigger} {activity : String}
    (h : (g.node n).kind = .boundaryEvent trigger activity) : (g.node n).kind.isGateway = false := by
  rw [h]
  rfl

theorem books_addTaskBoundaries (hg : g.Normal) (h : addTaskBoundaries g showEvents c = .ok () c') :
    Books g ((g.select (·.kind = .task)).flatMap (g.taskEventSteps showEvents)) c c' := by
  refine books_forM (fun task htask d d' _ hrun => ?_) h
  have hkind : (g.node task).kind = .task := of_decide_eq_true (mem_select.1 htask).2
  rw [taskEventSteps, List.map_eq_flatMap]
  refine books_forM (fun m hm e e' _ hturn => ?_) hrun
  obtain ⟨_, trigger, hevent⟩ := mem_boundaryEventsOf.1 hm
  obtain ⟨p, e₁, hp, h₁⟩ := bind_eq_ok.1 hturn
  obtain ⟨rfl, hp⟩ := placing_inPlace (slim hg (by rw [hkind]; rfl)) hp
  obtain ⟨q, e₂, hq, h₂⟩ := bind_eq_ok.1 h₁
  obtain ⟨rfl, hq⟩ := placing_outPlace (slim hg (isGateway_of_boundaryEvent hevent)) hq
  obtain ⟨t, e₃, ht, h₃⟩ := bind_eq_ok.1 h₂
  cases h₃
  exact books_addStep ht rfl rfl hp hq

/-! ## Resets -/

theorem books_addReset (h : addReset t p c = .ok () c') : Books g [] c c' := by
  intro done gates steps place hl
  unfold addReset at h
  rw [get_bind] at h
  split at h
  · cases h
    exact Books.refl _ _ _ _ _ hl
  · obtain ⟨n, rfl, hadd⟩ := addArc_effect hl.consistent h
    have hsame : Books g [] c { c with net := n } := by
      refine books_of_same (fun _ => hadd.consistent) rfl rfl hadd.nodes.place?
        hadd.nodes.liveTransitions fun a hkind _ => ?_
      rw [hadd.mem_arcs]
      refine or_iff_right ?_
      rintro rfl
      cases hkind
    exact hsame _ _ _ _ hl

theorem books_addResets {targets : List PlaceId} (h : addResets targets t c = .ok () c') :
    Books g [] c c' :=
  books_forM_nil (fun _ _ _ _ hrun => books_addReset hrun) h

theorem books_clearOnEntry {targets : List PlaceId} (h : clearOnEntry p targets c = .ok () c') :
    Books g [] c c' := by
  unfold clearOnEntry at h
  rw [get_bind] at h
  exact books_forM_nil (fun _ _ _ _ hrun => books_addResets hrun) h

/-! ## Terminate ends -/

theorem terminations_placing (hg : g.Normal) {process : String}
    (h : (g.terminationsOf process).mapM (inPlace g) c = .ok ps c') :
    c' = c ∧ List.Forall₂ (fun m p => Placing c (g.node m).incoming [p]) (g.terminationsOf process) ps := by
  obtain ⟨rfl, hall⟩ := mapM_inPlace_eq_ok h
  refine ⟨rfl, (forall₂_mem_left hall).imp fun m p hm => ?_⟩
  have hkind : (g.node m).kind.isGateway = false := by rw [(mem_terminationsOf.1 hm.1).2.2]; rfl
  exact (placing_inPlace (slim hg hkind) hm.2).2

theorem books_terminateSubprocess (hg : g.Normal) {s : JoinedSubprocess}
    (hid : s.id = (g.node n).id) (hparent : s.parent = (g.node n).process)
    (hbehind : Placing c (g.node n).outgoing [s.outPlace]) (h : terminateSubprocess g s c = .ok () c') :
    Books g (g.terminationSteps n) c c' := by
  unfold terminateSubprocess at h
  obtain ⟨ps, c₁, hps, h₁⟩ := bind_eq_ok.1 h
  obtain ⟨rfl, hall⟩ := terminations_placing hg hps
  rw [hid] at hall h₁
  rw [terminationSteps, List.map_eq_flatMap]
  refine books_forM₂ (forall₂_zip hall) ?_ h₁
  rintro m ⟨_, p⟩ ⟨rfl, hp⟩ d d' hflows _ hrun
  dsimp only at hp hrun
  rw [get_bind] at hrun
  obtain ⟨_, d₁, hclear, hrun⟩ := bind_eq_ok.1 hrun
  obtain ⟨t, d₂, ht, hrun⟩ := bind_eq_ok.1 hrun
  cases hrun
  refine (books_clearOnEntry hclear).trans fun hflows' _ => ?_
  have hkept := hflows'.trans hflows
  refine books_addStep ht ?_ rfl (hp.kept hkept) (hbehind.kept hkept)
  rw [hparent]

/-- The sink, if there is one, is the place of the flows into normal ends of the root process. -/
def Sunk (g : ProcessGraph) (c : Construction) : Prop :=
  ∀ sink, c.rootSink = some sink → Placing c g.rootEndFlows [sink]

theorem Sunk.kept (h : Sunk g c) (hflows : c'.flowPlaces = c.flowPlaces)
    (hsink : c'.rootSink = c.rootSink) : Sunk g c' :=
  fun sink hs => (h sink (hsink ▸ hs)).kept hflows

theorem books_terminateRoot (hg : g.Normal) (hsunk : Sunk g c) (h : terminateRoot g c = .ok () c') :
    Books g g.rootTerminationSteps c c' := by
  unfold terminateRoot at h
  obtain ⟨ps, c₁, hps, h₁⟩ := bind_eq_ok.1 h
  obtain ⟨rfl, hall⟩ := terminations_placing hg hps
  rw [rootTerminationSteps, List.map_eq_flatMap]
  refine books_forM₂ (forall₂_zip hall) ?_ h₁
  rintro m ⟨_, p⟩ ⟨rfl, hp⟩ d d' hflows hsink hrun
  dsimp only at hp hrun
  rw [get_bind] at hrun
  cases hd : d.rootSink with
  | none =>
    simp only [hd] at hrun
    cases hrun
  | some sink =>
    simp only [hd] at hrun
    rw [get_bind] at hrun
    obtain ⟨_, d₁, hclear, hrun⟩ := bind_eq_ok.1 hrun
    obtain ⟨t, d₂, ht, hrun⟩ := bind_eq_ok.1 hrun
    cases hrun
    refine (books_clearOnEntry hclear).trans fun hflows' _ => ?_
    have hkept := hflows'.trans hflows
    exact books_addStep ht rfl rfl (hp.kept hkept)
      ((hsunk sink (hsink ▸ hd)).kept hkept)

end ProcessNet.Construction

namespace ProcessNet.ProcessGraph

open Identifier Construction

variable {g normal : ProcessGraph}

theorem supported_of_firstUnsupported? (h : g.firstUnsupported? = none) : Supported g := by
  intro n direction hkind
  have hlt : index n < g.nodes.size := lt_of_kind fun he => by rw [hkind] at he; cases he
  have hnone := List.find?_eq_none.1 h n (mem_sortedNodes.2 hlt)
  simp [hkind] at hnone

theorem Refines.supported (h : Refines g normal) (hg : Supported g) : Supported normal := by
  intro n direction hkind
  have hlt : index n < normal.nodes.size := ProcessGraph.lt_of_kind fun he => by rw [hkind] at he; cases he
  by_cases hn : index n < g.nodes.size
  · exact hg n direction ((h.id_eq hn).2.2 ▸ hkind)
  · obtain ⟨d, hd⟩ := h.gateway n (Nat.le_of_not_lt hn) hlt
    rw [hkind] at hd
    cases hd

end ProcessNet.ProcessGraph
