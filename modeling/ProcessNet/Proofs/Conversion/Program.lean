/-
Every part of the construction is a program of edits. Outputs of steps, merged ends and exits lead to
places of flows or to places that are new, so no part moves tokens through a place that is frozen.
-/
import ProcessNet.Proofs.Conversion.Edit

namespace ProcessNet.Construction

open Identifier Net

variable {F : Fence} (g : ProcessGraph)

/-! ## Places of flows -/

theorem makes_lacks {α : Type} {P : α → Prop} (n : NodeId) (d : Deficiency) :
    Makes F P (lacks g n d) :=
  makes_throw _

theorem makes_inPlace (n : NodeId) : Makes F (fun p => ¬ F.frozen p) (inPlace g n) := by
  unfold inPlace
  split
  · exact makes_flowPlace _
  · exact makes_lacks g _ _

theorem makes_outPlace (n : NodeId) : Makes F (fun p => ¬ F.frozen p) (outPlace g n) := by
  unfold outPlace
  split
  · exact makes_flowPlace _
  · exact makes_lacks g _ _

theorem makes_sortedPlaces (flows : List FlowId) :
    Makes F (fun ps => ∀ p ∈ ps, ¬ F.frozen p) (sortedPlaces g flows) :=
  makes_mapM makes_flowPlace

/-! ## Flows and nodes -/

theorem makes_addFlowPlace (hF : F.registers) (f : FlowId) :
    Makes F (fun _ => True) (addFlowPlace g f) := by
  intro c hc
  unfold addFlowPlace
  rw [get_bind]
  cases hroot : if entersRootEnd g (g.flow f) then c.rootSink else none with
  | some p =>
    have hsink : c.rootSink = some p := by
      split at hroot
      · exact hroot
      · cases hroot
    exact ⟨.single (.register f hF (hc.sink p hsink) hc.sink), trivial⟩
  | none =>
    refine Ends.bind (ends_onNet.imp ?_ fun _ _ he => he)
    rintro p _ ⟨n, hadd, rfl⟩
    obtain ⟨_, hp, hn⟩ := addPlace_eq_ok hadd
    have hold : index p = c.net.places.size := hp ▸ Arena.index_next
    have hsize : n.places.size = c.net.places.size + 1 := by rw [hn]; exact Arena.size_push
    have hnew : ¬ F.frozen p ∧ index p < n.places.size :=
      ⟨fun hfrozen => Nat.lt_irrefl _ (hold ▸ hc.old p hfrozen), by omega⟩
    have hstep : Edit F c { c with net := n } := .place hadd
    refine ⟨.tail (.single hstep) (.register f hF hnew fun q hq => ?_), trivial⟩
    split at hq
    · cases hq
      exact hnew
    · exact (hstep.fenced hc).sink q hq

theorem makes_addFlowPlaces (hF : F.registers) : Makes F (fun _ => True) (addFlowPlaces g) :=
  makes_forM fun f _ => makes_addFlowPlace g hF f

theorem makes_addNodeStep (n : NodeId) (label : Option String) :
    Makes F (fun _ => True) (addNodeStep g n label) :=
  (makes_inPlace g n).bind fun p hp => (makes_outPlace g n).bind fun q hq =>
    (makes_addStep (by simpa using hp) (by simpa using hq)).bind fun _ _ => makes_pure trivial

/-- A branch of `addChoices` leads from one of the inputs to one of the outputs. -/
theorem mem_of_choice {α β : Type} {inputs : List α} {outputs : List β} {p : α} {q : β} {k : Nat}
    (h : ((p, q), k) ∈ (inputs.flatMap fun p => outputs.map fun q => (p, q)).zipIdx) :
    p ∈ inputs ∧ q ∈ outputs := by
  obtain ⟨_, hp, he⟩ := List.mem_flatMap.1 (List.fst_mem_of_mem_zipIdx h)
  obtain ⟨_, hq, he⟩ := List.mem_map.1 he
  cases he
  exact ⟨hp, hq⟩

theorem makes_addChoices (node : Node) {inputs outputs : List PlaceId}
    (hin : ∀ p ∈ inputs, ¬ F.frozen p) (hout : ∀ p ∈ outputs, ¬ F.frozen p) :
    Makes F (fun _ => True) (addChoices node inputs outputs) := by
  refine makes_forM fun e he => ?_
  obtain ⟨⟨p, q⟩, k⟩ := e
  obtain ⟨hp, hq⟩ := mem_of_choice he
  have hin' : ∀ r ∈ [p], ¬ F.frozen r := by simpa using hin p hp
  have hout' : ∀ r ∈ [q], ¬ F.frozen r := by simpa using hout q hq
  exact (makes_addStep hin' hout').bind fun _ _ => makes_pure trivial

theorem makes_addGateway (n : NodeId) (kind : GatewayKind) (direction : GatewayDirection) :
    Makes F (fun _ => True) (addGateway g n kind direction) := by
  simp only [addGateway]
  split
  · exact makes_addNodeStep g n none
  · split
    · exact makes_lacks g _ _
    · split
      · exact makes_lacks g _ _
      · refine (makes_sortedPlaces g _).bind fun ps hps => (makes_sortedPlaces g _).bind
          fun qs hqs => ?_
        cases kind with
        | parallel => exact (makes_addStep hps hqs).bind fun _ _ => makes_pure trivial
        | exclusive => exact makes_addChoices _ hps hqs
        | inclusive => exact makes_throw _

theorem markStart_eq_ok {p : PlaceId} {c c' : Construction} :
    markStart p c = .ok () c' ↔
      ∃ m, c.initial.add p 1 = .ok m ∧ c' = { c with initial := m } := by
  unfold markStart
  rw [get_bind]
  cases c.initial.add p 1 with
  | error f => exact ⟨nofun, fun ⟨_, h, _⟩ => nomatch h⟩
  | ok m =>
    constructor
    · intro h
      cases h
      exact ⟨m, rfl, rfl⟩
    · rintro ⟨_, ⟨⟩, rfl⟩
      rfl

/-- By `markStart` a start of the root process marks the place of a flow. -/
theorem makes_markOut (n : NodeId) :
    Makes F (fun _ => True) (outPlace g n >>= markStart) := by
  unfold outPlace
  split
  · rename_i f _ _
    intro c hc
    unfold flowPlace
    refine Ends.bind ?_
    rw [get_bind]
    cases hp : c.flowPlaces.lookup f with
    | none => trivial
    | some p =>
      change Ends _ _ (markStart p c)
      unfold markStart
      rw [get_bind]
      cases hadd : c.initial.add p 1 with
      | error f => trivial
      | ok m =>
        obtain ⟨hfree, hlt⟩ := hc.flows f p hp
        exact ⟨.single (.mark hfree hlt hadd), trivial⟩
  · exact (makes_lacks g (P := fun _ => False) n _).bind fun _ h => h.elim

theorem makes_addNode (n : NodeId) : Makes F (fun _ => True) (addNode g n) := by
  simp only [addNode]
  split
  · split
    · exact makes_markOut g n
    · exact (makes_outPlace g n).bind fun _ _ => makes_pure trivial
  · refine (makes_inPlace g n).bind fun p _ => ?_
    split
    · exact makes_modify fun _ _ => .finish p
    · exact makes_pure trivial
  · exact makes_addNodeStep g n _
  · exact makes_addNodeStep g n _
  · exact makes_addNodeStep g n _
  · exact makes_addGateway g n _ _
  · exact makes_pure trivial
  · exact makes_pure trivial

theorem makes_addNodes : Makes F (fun _ => True) (addNodes g) :=
  makes_forM fun n _ => makes_addNode g n

/-! ## Subprocesses -/

theorem makes_normalEndPlaces (process : String) :
    Makes F (fun ps => ∀ p ∈ ps, ¬ F.frozen p) (normalEndPlaces g process) :=
  makes_mapM (makes_inPlace g)

theorem makes_joinSubprocess (n : NodeId) :
    Makes F (fun s : JoinedSubprocess => ¬ F.frozen s.outPlace) (joinSubprocess g n) := by
  refine (makes_inPlace g n).bind fun p hp => (makes_outPlace g n).bind fun q hq =>
    (makes_mapM (makes_outPlace g)).bind fun starts hstarts => ?_
  have hp' : ∀ r ∈ [p], ¬ F.frozen r := by simpa using hp
  have hq' : ∀ r ∈ [q], ¬ F.frozen r := by simpa using hq
  refine makes_unless (makes_lacks g _ _) ((makes_normalEndPlaces g _).bind fun ends hends => ?_)
  refine makes_unless (makes_lacks g _ _) ((makes_addStep hp' hstarts).bind fun enter _ => ?_)
  refine (makes_mapM_of_mem (Q := fun _ => True) fun e he => ?_).bind fun exits _ =>
    makes_pure hq
  have hin : ∀ r ∈ [e.1], ¬ F.frozen r := by
    simpa using hends e.1 (List.fst_mem_of_mem_zipIdx he)
  exact makes_addStep hin hq'

theorem makes_joinSubprocesses :
    Makes F (fun l : List JoinedSubprocess => ∀ s ∈ l, ¬ F.frozen s.outPlace)
      (joinSubprocesses g) :=
  makes_mapM (makes_joinSubprocess g)

theorem makes_addTaskBoundary (showEvents : Bool) (task event : NodeId) :
    Makes F (fun _ => True) (addTaskBoundary g showEvents task event) :=
  (makes_inPlace g task).bind fun p hp => (makes_outPlace g event).bind fun q hq =>
    (makes_addStep (by simpa using hp) (by simpa using hq)).bind fun _ _ => makes_pure trivial

theorem makes_addTaskBoundaries (showEvents : Bool) :
    Makes F (fun _ => True) (addTaskBoundaries g showEvents) :=
  makes_forM fun _ _ => makes_forM fun _ _ => makes_addTaskBoundary g showEvents _ _

/-! ## Boundary events -/

/-- One turn of `addResets`. -/
def addReset (t : TransitionId) (p : PlaceId) : ConstructionM Unit := do
  unless (← get).net.hasArc (.input p t) do addArc (.reset p t)

theorem makes_addReset (t : TransitionId) (p : PlaceId) :
    Makes F (fun _ => True) (addReset t p) := by
  refine makes_get fun c _ => ?_
  split
  · exact makes_pure trivial
  · exact makes_addArc fun hk => nomatch hk

theorem makes_addResets (places : List PlaceId) (t : TransitionId) :
    Makes F (fun _ => True) (addResets places t) :=
  makes_forM fun p _ => makes_addReset t p

theorem makes_clearOnEntry (p : PlaceId) (targets : List PlaceId) :
    Makes F (fun _ => True) (clearOnEntry p targets) :=
  makes_get fun _ _ => makes_forM fun _ _ => makes_addResets _ _

theorem makes_collectEnd (found : List PlaceId) (n : NodeId) (hfound : ∀ p ∈ found, ¬ F.frozen p) :
    Makes F (fun ps => ∀ p ∈ ps, ¬ F.frozen p) (collectEnd g found n) := by
  refine (makes_inPlace g n).bind fun p hp => makes_get fun c _ => ?_
  split
  · refine makes_pure fun q hq => ?_
    rcases List.mem_append.1 hq with hq | hq
    · exact hfound q hq
    · exact List.mem_singleton.1 hq ▸ hp
  · exact makes_pure hfound

theorem makes_mergeInto {main duplicate : PlaceId} (hmain : ¬ F.frozen main)
    (hduplicate : ¬ F.frozen duplicate) :
    Makes F (fun _ => True) (mergeInto main duplicate) :=
  makes_get fun _ _ => (makes_forM fun _ _ => makes_addArc fun _ => hmain).bind fun _ _ =>
    (makes_onNet (P := fun _ => True) fun _ _ _ _ h => ⟨.drop hduplicate h, trivial⟩).bind
      fun _ _ => makes_pure trivial

theorem makes_mergeRaisingEnds (s : JoinedSubprocess) (event : Node) (trigger : BoundaryTrigger) :
    Makes F (fun p => ¬ F.frozen p) (mergeRaisingEnds g s event trigger) := by
  refine (makes_foldlM (Q := fun ps => ∀ p ∈ ps, ¬ F.frozen p) (fun _ hp => absurd hp List.not_mem_nil)
    fun ps n hps => makes_collectEnd g ps n hps).bind fun ps hps => ?_
  split
  · exact makes_throw _
  · rename_i main duplicates
    have hmain : ¬ F.frozen main := hps main List.mem_cons_self
    exact (makes_forM fun p hp => makes_mergeInto hmain
      (hps p (List.mem_cons_of_mem _ hp))).bind fun _ _ => makes_pure hmain

theorem makes_addGate (s : JoinedSubprocess) (event : Node) (t : TransitionId) :
    Makes F (fun _ => True) (addGate s event t) :=
  (makes_addPlace _).bind fun _ hgate => (makes_addArc fun _ => hgate).bind fun _ _ =>
    (makes_forM fun _ _ => makes_addArc fun _ => hgate).bind fun _ _ => makes_addArc fun _ => hgate

/-- `addSubprocessBoundary` only adds to the messages that were found. -/
theorem makes_addSubprocessBoundary (showEvents : Bool) (s : JoinedSubprocess)
    (found : Interruptions) (n : NodeId) :
    Makes F (fun found' : Interruptions => ∀ t ∈ found.messages, t ∈ found'.messages)
      (addSubprocessBoundary g showEvents s found n) := by
  simp only [addSubprocessBoundary]
  split
  · refine (makes_outPlace g n).bind fun q hq => (makes_addTransition _).bind fun t _ =>
      (makes_addArc fun _ => hq).bind fun _ _ => ?_
    split
    · exact (makes_mergeRaisingEnds g s _ _).bind fun p hp =>
        (makes_addArc fun _ => hp).bind fun _ _ => makes_pure fun _ => id
    · exact (makes_addGate s _ t).bind fun _ _ => makes_pure fun _ => List.mem_append_left _
  · exact makes_pure fun _ => id

/-- In `addSubprocessBoundaries` a subprocess without events needs no case of its own. -/
theorem addSubprocessBoundaries_eq (showEvents : Bool) (s : JoinedSubprocess) :
    addSubprocessBoundaries g showEvents s = (do
      let found ← (g.boundaryEventsOf s.id).foldlM (addSubprocessBoundary g showEvents s) {}
      let scope := scopePlaces g (← get).net s.id
      found.raised.forM fun p => clearOnEntry p (scope.filter (· ∉ found.raised))
      found.messages.forM (addResets scope)) := by
  unfold addSubprocessBoundaries
  dsimp only
  split
  · rename_i hempty
    rw [List.isEmpty_iff.1 hempty]
    rfl
  · rfl

variable {g} in
theorem addSubprocessBoundaries_eq_ok {showEvents : Bool} {s : JoinedSubprocess}
    {c c' : Construction} :
    addSubprocessBoundaries g showEvents s c = .ok () c' ↔ ∃ found c₁ c₂,
      (g.boundaryEventsOf s.id).foldlM (addSubprocessBoundary g showEvents s) {} c = .ok found c₁ ∧
      (found.raised.forM fun p => clearOnEntry p
        ((scopePlaces g c₁.net s.id).filter (· ∉ found.raised))) c₁ = .ok () c₂ ∧
      found.messages.forM (addResets (scopePlaces g c₁.net s.id)) c₂ = .ok () c' := by
  rw [addSubprocessBoundaries_eq, bind_eq_ok]
  simp only [get_bind, bind_eq_ok]
  constructor
  · rintro ⟨found, c₁, h₁, ⟨⟩, c₂, h₂, h₃⟩
    exact ⟨found, c₁, c₂, h₁, h₂, h₃⟩
  · rintro ⟨found, c₁, c₂, h₁, h₂, h₃⟩
    exact ⟨found, c₁, h₁, (), c₂, h₂, h₃⟩

theorem makes_addSubprocessBoundaries (showEvents : Bool) (s : JoinedSubprocess) :
    Makes F (fun _ => True) (addSubprocessBoundaries g showEvents s) := by
  rw [addSubprocessBoundaries_eq]
  exact (makes_foldlM (Q := fun _ => True) trivial
    fun found n _ => (makes_addSubprocessBoundary g showEvents s found n).mono
      fun _ _ => trivial).bind fun found _ =>
    makes_get fun c _ => (makes_forM fun _ _ => makes_clearOnEntry _ _).bind fun _ _ =>
      makes_forM fun _ _ => makes_addResets _ _

/-! ## Terminate ends -/

theorem makes_terminateSubprocess (s : JoinedSubprocess) (hs : ¬ F.frozen s.outPlace) :
    Makes F (fun _ => True) (terminateSubprocess g s) := by
  refine (makes_mapM (makes_inPlace g)).bind fun own hown => makes_forM fun e he => ?_
  have hin : ∀ r ∈ [e.2], ¬ F.frozen r := by simpa using hown e.2 (List.of_mem_zip he).2
  have hout : ∀ r ∈ [s.outPlace], ¬ F.frozen r := by simpa using hs
  exact makes_get fun c _ => (makes_clearOnEntry _ _).bind fun _ _ =>
    (makes_addStep hin hout).bind fun _ _ => makes_pure trivial

theorem makes_terminateRoot : Makes F (fun _ => True) (terminateRoot g) := by
  refine (makes_mapM (makes_inPlace g)).bind fun own hown => makes_forM fun e he =>
    makes_get fun c hc => ?_
  have hin : ∀ r ∈ [e.2], ¬ F.frozen r := by simpa using hown e.2 (List.of_mem_zip he).2
  split
  · exact makes_lacks g _ _
  · rename_i sink hsink
    have hout : ∀ r ∈ [sink], ¬ F.frozen r := by simpa using (hc.sink sink hsink).1
    exact makes_get fun c _ => (makes_clearOnEntry _ _).bind fun _ _ =>
      (makes_addStep hin hout).bind fun _ _ => makes_pure trivial

theorem makes_absorb (hF : F.absorbs) (s : JoinedSubprocess) :
    Makes F (fun _ => True) (absorb s) :=
  makes_modify fun _ _ => .absorb s hF

/-! ## The whole construction -/

/-- What is done for a subprocess that has been joined: it gets its interruptions and is handed
over. -/
def finish (showEvents : Bool) (s : JoinedSubprocess) : ConstructionM Unit := do
  addSubprocessBoundaries g showEvents s
  terminateSubprocess g s
  absorb s

theorem makes_finish (hF : F.absorbs) (showEvents : Bool) (s : JoinedSubprocess)
    (hs : ¬ F.frozen s.outPlace) : Makes F (fun _ => True) (finish g showEvents s) :=
  (makes_addSubprocessBoundaries g showEvents s).bind fun _ _ =>
    (makes_terminateSubprocess g s hs).bind fun _ _ => makes_absorb hF s

theorem makes_construct (hregisters : F.registers) (habsorbs : F.absorbs) (showEvents : Bool) :
    Makes F (fun _ => True) (construct g showEvents) :=
  (makes_addFlowPlaces g hregisters).bind fun _ _ => (makes_addNodes g).bind fun _ _ =>
    (makes_joinSubprocesses g).bind fun _ hl => (makes_addTaskBoundaries g showEvents).bind
      fun _ _ => (makes_forM fun s hs => makes_finish g habsorbs showEvents s (hl s hs)).bind
        fun _ _ => makes_terminateRoot g

end ProcessNet.Construction
