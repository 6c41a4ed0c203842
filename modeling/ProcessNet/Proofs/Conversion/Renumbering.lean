/-
Constructions for graphs that differ only in how nodes and flows are numbered. Every part of the
construction reads nodes and flows through their ids, so two runs build the same net step by step and
fail, if they do, at the same step for the same reason.
-/
import ProcessNet.Conversion.Result
import ProcessNet.Proofs.Outcome
import ProcessNet.Proofs.Process.Renaming

namespace ProcessNet.Construction

open Identifier ProcessGraph

/-! ## Two runs side by side -/

/-- The construction `d` is `c` with the flows renumbered. -/
structure Renumbers (τ : Equiv.Perm FlowId) (c d : Construction) : Prop where
  net : d.net = c.net
  initial : d.initial = c.initial
  final : d.final = c.final
  rootSink : d.rootSink = c.rootSink
  flowPlaces : ∀ f, d.flowPlaces.lookup (τ f) = c.flowPlaces.lookup f

/-- Two outcomes with the same answer or the same error. -/
inductive SameOutcome {α : Type} (τ : Equiv.Perm FlowId) :
    EStateM.Result ConversionError Construction α →
      EStateM.Result ConversionError Construction α → Prop
  | ok (x : α) {c d : Construction} : Renumbers τ c d → SameOutcome τ (.ok x c) (.ok x d)
  | error (e : ConversionError) {c d : Construction} :
    Renumbers τ c d → SameOutcome τ (.error e c) (.error e d)

/-- Two programs that do the same from states that differ only in the numbers of flows. -/
def Tallies {α : Type} (τ : Equiv.Perm FlowId) (p q : ConstructionM α) : Prop :=
  ∀ c d, Renumbers τ c d → SameOutcome τ (p c) (q d)

section Programs

variable {τ : Equiv.Perm FlowId} {α β ι κ : Type}

theorem tallies_pure (x : α) : Tallies τ (pure x) (pure x) := fun _ _ h => .ok x h

theorem tallies_throw (e : ConversionError) :
    Tallies τ (throw e : ConstructionM α) (throw e) := fun _ _ h => .error e h

theorem Tallies.bind {p q : ConstructionM α} {k k' : α → ConstructionM β} (h : Tallies τ p q)
    (hk : ∀ x, Tallies τ (k x) (k' x)) : Tallies τ (p >>= k) (q >>= k') := by
  intro c d hcd
  have hpq := h c d hcd
  cases hp : p c with
  | ok x c₁ =>
    rw [hp] at hpq
    cases hq : q d with
    | ok y d₁ =>
      rw [hq] at hpq
      cases hpq with
      | ok x h₁ =>
        rw [bind_of_ok hp, bind_of_ok hq]
        exact hk x _ _ h₁
    | error e d₁ =>
      rw [hq] at hpq
      cases hpq
  | error e c₁ =>
    rw [hp] at hpq
    cases hq : q d with
    | ok y d₁ =>
      rw [hq] at hpq
      cases hpq
    | error e' d₁ =>
      rw [hq] at hpq
      cases hpq with
      | error e h₁ =>
        rw [bind_of_error hp, bind_of_error hq]
        exact .error e h₁

theorem tallies_get {k k' : Construction → ConstructionM β}
    (h : ∀ c d, Renumbers τ c d → Tallies τ (k c) (k' d)) : Tallies τ (get >>= k) (get >>= k') :=
  fun c d hcd => h c d hcd c d hcd

/-- `unless` stands in front of the rest of two programs as a check that may fail. -/
theorem tallies_unless {failing : Bool} {m m' : ConstructionM PUnit}
    {rest rest' : PUnit → ConstructionM β} (hm : Tallies τ m m')
    (hrest : Tallies τ (rest ()) (rest' ())) :
    Tallies τ (if failing then m >>= rest else rest ())
      (if failing then m' >>= rest' else rest' ()) := by
  split
  · exact hm.bind fun _ => hrest
  · exact hrest

theorem tallies_modify {f f' : Construction → Construction}
    (h : ∀ c d, Renumbers τ c d → Renumbers τ (f c) (f' d)) :
    Tallies τ (modify f : ConstructionM PUnit) (modify f') := fun c d hcd => .ok () (h c d hcd)

theorem tallies_forM {ρ : ι → κ} {l : List ι} {f : ι → ConstructionM PUnit}
    {f' : κ → ConstructionM PUnit} (h : ∀ x ∈ l, Tallies τ (f x) (f' (ρ x))) :
    Tallies τ (l.forM f) ((l.map ρ).forM f') := by
  induction l with
  | nil => exact tallies_pure _
  | cons x l ih =>
    rw [List.map_cons, List.forM, List.forM]
    exact (h x List.mem_cons_self).bind fun _ => ih fun y hy => h y (List.mem_cons_of_mem _ hy)

theorem tallies_forM_same {l : List ι} {f f' : ι → ConstructionM PUnit}
    (h : ∀ x ∈ l, Tallies τ (f x) (f' x)) : Tallies τ (l.forM f) (l.forM f') := by
  have hmap : Tallies τ (l.forM f) ((l.map id).forM f') := tallies_forM h
  rwa [List.map_id] at hmap

theorem tallies_foldlM {ρ : ι → κ} {l : List ι} {f : β → ι → ConstructionM β}
    {f' : β → κ → ConstructionM β} (h : ∀ y, ∀ x ∈ l, Tallies τ (f y x) (f' y (ρ x))) (y : β) :
    Tallies τ (l.foldlM f y) ((l.map ρ).foldlM f' y) := by
  induction l generalizing y with
  | nil => exact tallies_pure _
  | cons x l ih =>
    rw [List.map_cons, List.foldlM_cons, List.foldlM_cons]
    exact (h y x List.mem_cons_self).bind fun z =>
      ih (fun y x hx => h y x (List.mem_cons_of_mem _ hx)) z

theorem tallies_mapM {ρ : ι → κ} {l : List ι} {f : ι → ConstructionM β} {f' : κ → ConstructionM β}
    (h : ∀ x ∈ l, Tallies τ (f x) (f' (ρ x))) : Tallies τ (l.mapM f) ((l.map ρ).mapM f') := by
  induction l with
  | nil =>
    rw [List.map_nil, List.mapM_nil, List.mapM_nil]
    exact tallies_pure _
  | cons x l ih =>
    rw [List.map_cons, List.mapM_cons, List.mapM_cons]
    exact (h x List.mem_cons_self).bind fun _ =>
      (ih fun y hy => h y (List.mem_cons_of_mem _ hy)).bind fun _ => tallies_pure _

theorem tallies_mapM_same {l : List ι} {f f' : ι → ConstructionM β}
    (h : ∀ x ∈ l, Tallies τ (f x) (f' x)) : Tallies τ (l.mapM f) (l.mapM f') := by
  have hmap : Tallies τ (l.mapM f) ((l.map id).mapM f') := tallies_mapM h
  rwa [List.map_id] at hmap

/-- `onNet` does not see flows. -/
theorem tallies_onNet (f : Net → Except NetError (Net × α)) : Tallies τ (onNet f) (onNet f) := by
  refine tallies_get fun c d hcd => ?_
  rw [hcd.net]
  split
  · rename_i n x _
    refine (tallies_modify fun c' d' h => ?_).bind fun _ => tallies_pure x
    exact ⟨rfl, h.initial, h.final, h.rootSink, h.flowPlaces⟩
  · exact tallies_throw _

theorem tallies_addPlace (p : Place) : Tallies τ (addPlace p) (addPlace p) := tallies_onNet _

theorem tallies_addTransition (t : Transition) :
    Tallies τ (addTransition t) (addTransition t) := tallies_onNet _

theorem tallies_addArc (a : Arc) : Tallies τ (addArc a) (addArc a) :=
  (tallies_onNet _).bind fun _ => tallies_pure _

theorem tallies_addStep (t : Transition) (inputs outputs : List PlaceId) :
    Tallies τ (addStep t inputs outputs) (addStep t inputs outputs) :=
  (tallies_addTransition t).bind fun _ =>
    (tallies_forM_same fun _ _ => tallies_addArc _).bind fun _ =>
      (tallies_forM_same fun _ _ => tallies_addArc _).bind fun _ => tallies_pure _

theorem tallies_flowPlace (f : FlowId) : Tallies τ (flowPlace f) (flowPlace (τ f)) := by
  refine tallies_get fun c d hcd => ?_
  rw [hcd.flowPlaces]
  split
  · exact tallies_pure _
  · exact tallies_throw _

theorem tallies_addChoices (node : Node) (inputs outputs : List PlaceId) :
    Tallies τ (addChoices node inputs outputs) (addChoices node inputs outputs) :=
  tallies_forM_same fun _ _ => (tallies_addStep _ _ _).bind fun _ => tallies_pure _

theorem tallies_addResets (places : List PlaceId) (t : TransitionId) :
    Tallies τ (addResets places t) (addResets places t) := by
  refine tallies_forM_same fun p _ => tallies_get fun c d hcd => ?_
  rw [hcd.net]
  split
  · exact tallies_pure _
  · exact tallies_addArc _

theorem tallies_clearOnEntry (p : PlaceId) (targets : List PlaceId) :
    Tallies τ (clearOnEntry p targets) (clearOnEntry p targets) := by
  refine tallies_get fun c d hcd => ?_
  rw [hcd.net]
  exact tallies_forM_same fun t _ => tallies_addResets targets t

theorem tallies_absorb (s : JoinedSubprocess) : Tallies τ (absorb s) (absorb s) :=
  tallies_modify fun _ _ h =>
    ⟨by rw [h.net], h.initial, h.final, h.rootSink, h.flowPlaces⟩

theorem tallies_mergeInto (main duplicate : PlaceId) :
    Tallies τ (mergeInto main duplicate) (mergeInto main duplicate) := by
  refine tallies_get fun c d hcd => ?_
  rw [hcd.net]
  exact (tallies_forM_same fun _ _ => tallies_addArc _).bind fun _ =>
    (tallies_onNet _).bind fun _ => tallies_pure _

theorem tallies_addGate (s : JoinedSubprocess) (event : Node) (t : TransitionId) :
    Tallies τ (addGate s event t) (addGate s event t) :=
  (tallies_addPlace _).bind fun _ => (tallies_addArc _).bind fun _ =>
    (tallies_forM_same fun _ _ => tallies_addArc _).bind fun _ => tallies_addArc _

theorem tallies_markStart (p : PlaceId) : Tallies τ (markStart p) (markStart p) := by
  refine tallies_get fun c d hcd => ?_
  rw [hcd.initial]
  split
  · exact fun c' d' _ => .ok () ⟨hcd.net, rfl, hcd.final, hcd.rootSink, hcd.flowPlaces⟩
  · exact tallies_throw _

end Programs

/-! ## Parts of the construction -/

/-- Two graphs in gateway form that differ only in their numbers. -/
structure Twins (σ : Equiv.Perm NodeId) (τ : Equiv.Perm FlowId) (g h : ProcessGraph) : Prop
    extends Matches σ τ g h where
  form : g.InGatewayForm

namespace Twins

variable {σ : Equiv.Perm NodeId} {τ : Equiv.Perm FlowId} {g h : ProcessGraph} {n : NodeId}

theorem node_eventName (ht : Twins σ τ g h) (n : NodeId) :
    (h.node (σ n)).eventName = (g.node n).eventName :=
  congrArg (·.eventName) (ht.renames.node n)

theorem node_displayName? (ht : Twins σ τ g h) (n : NodeId) :
    (h.node (σ n)).displayName? = (g.node n).displayName? :=
  congrArg (·.displayName?) (ht.renames.node n)

theorem isRoot_eq (ht : Twins σ τ g h) (process : String) : h.isRoot process = g.isRoot process := by
  rw [isRoot, isRoot, ht.renames.processId]

theorem incoming_eq (ht : Twins σ τ g h) (hslim : (g.node n).incoming.length ≤ 1) :
    (h.node (σ n)).incoming = (g.node n).incoming.map τ :=
  Renames.eq_of_perm_of_length_le_one (ht.renames.perm_incoming ht.linked ht.linked' n)
    (by rwa [List.length_map])

theorem outgoing_eq (ht : Twins σ τ g h) (hslim : (g.node n).outgoing.length ≤ 1) :
    (h.node (σ n)).outgoing = (g.node n).outgoing.map τ :=
  Renames.eq_of_perm_of_length_le_one (ht.renames.perm_outgoing ht.linked ht.linked' n)
    (by rwa [List.length_map])

theorem slim (ht : Twins σ τ g h) (hkind : (g.node n).kind.isGateway = false) : g.Slim n :=
  inGatewayForm_iff.1 ht.form n hkind

theorem select_eq (ht : Twins σ τ g h) {keep : Node → Bool} (hkeep : ∀ x, keep x = keep x.bare) :
    h.select keep = (g.select keep).map σ :=
  ht.renames.select_eq ht.distinct' hkeep

theorem tallies_lacks {α : Type} (ht : Twins σ τ g h) (n : NodeId) (d : Deficiency) :
    Tallies τ (lacks g n d : ConstructionM α) (lacks h (σ n) d) := by
  rw [lacks, lacks, ht.renames.node_id]
  exact tallies_throw _

theorem tallies_inPlace (ht : Twins σ τ g h) (hslim : (g.node n).incoming.length ≤ 1) :
    Tallies τ (inPlace g n) (inPlace h (σ n)) := by
  rw [inPlace, inPlace, ht.incoming_eq hslim]
  cases (g.node n).incoming with
  | nil => exact ht.tallies_lacks n _
  | cons f l => exact tallies_flowPlace f

theorem tallies_outPlace (ht : Twins σ τ g h) (hslim : (g.node n).outgoing.length ≤ 1) :
    Tallies τ (outPlace g n) (outPlace h (σ n)) := by
  rw [outPlace, outPlace, ht.outgoing_eq hslim]
  cases (g.node n).outgoing with
  | nil => exact ht.tallies_lacks n _
  | cons f l => exact tallies_flowPlace f

theorem tallies_sortedPlaces (ht : Twins σ τ g h) {l l' : List FlowId} (hperm : (l.map τ).Perm l')
    (hl : ∀ f ∈ l, index f < g.flows.size) :
    Tallies τ (sortedPlaces g l) (sortedPlaces h l') := by
  rw [sortedPlaces, sortedPlaces, ht.renames.mergeSort_eq ht.distinct' hperm hl]
  exact tallies_mapM fun f _ => tallies_flowPlace f

/-! ## Flows and nodes -/

theorem tallies_addFlowPlace (ht : Twins σ τ g h) {f : FlowId} (hf : index f < g.flows.size) :
    Tallies τ (addFlowPlace g f) (addFlowPlace h (τ f)) := by
  have hr := ht.renames
  have hroot : entersRootEnd h (h.flow (τ f)) = entersRootEnd g (g.flow f) := by
    rw [hr.flow f hf]
    simp only [entersRootEnd, Flow.renamed, hr.node_kind, hr.node_process, ht.isRoot_eq]
  have hrole : flowRole h (h.flow (τ f)) = flowRole g (g.flow f) := by
    rw [hr.flow f hf]
    simp only [flowRole, Flow.renamed, hr.node_kind, ht.node_eventName]
  have hname : ∀ role, flowPlaceName role (h.flow (τ f)) = flowPlaceName role (g.flow f) := by
    intro role
    rw [hr.flow f hf]
    rfl
  have hprocess : (h.flow (τ f)).process = (g.flow f).process := by
    rw [hr.flow f hf]
    rfl
  have hlookup : ∀ {c d : Construction} {p : PlaceId}, Renumbers τ c d → ∀ k,
      ((τ f, p) :: d.flowPlaces).lookup (τ k) = ((f, p) :: c.flowPlaces).lookup k := by
    intro c d p hcd k
    rw [List.lookup_cons, List.lookup_cons, hcd.flowPlaces]
    by_cases hk : k = f
    · rw [hk, beq_self_eq_true, beq_self_eq_true]
    · rw [beq_false_of_ne hk, beq_false_of_ne fun he => hk (τ.injective he)]
  refine tallies_get fun c d hcd => ?_
  rw [hroot, hcd.rootSink]
  split
  · exact tallies_modify fun c' d' h => ⟨h.net, h.initial, h.final, h.rootSink, hlookup h⟩
  · simp only [hrole, hname, hprocess]
    refine (tallies_addPlace _).bind fun p => tallies_modify fun c' d' h => ?_
    exact ⟨h.net, h.initial, h.final, by rw [h.rootSink], hlookup h⟩

theorem tallies_addFlowPlaces (ht : Twins σ τ g h) :
    Tallies τ (addFlowPlaces g) (addFlowPlaces h) := by
  rw [addFlowPlaces, addFlowPlaces, ht.renames.sortedFlows_eq ht.distinct']
  exact tallies_forM fun f hf => ht.tallies_addFlowPlace (mem_sortedFlows.1 hf)

theorem tallies_addNodeStep (ht : Twins σ τ g h) (hslim : g.Slim n) (label : Option String) :
    Tallies τ (addNodeStep g n label) (addNodeStep h (σ n) label) := by
  refine (ht.tallies_inPlace hslim.1).bind fun p => (ht.tallies_outPlace hslim.2).bind fun q => ?_
  simp only [ht.renames.node_id, ht.renames.node_process]
  exact (tallies_addStep _ _ _).bind fun _ => tallies_pure _

theorem tallies_addGateway (ht : Twins σ τ g h) (n : NodeId) (kind : GatewayKind)
    (direction : GatewayDirection) :
    Tallies τ (addGateway g n kind direction) (addGateway h (σ n) kind direction) := by
  have hr := ht.renames
  have hin := hr.length_incoming ht.linked ht.linked' n
  have hout := hr.length_outgoing ht.linked ht.linked' n
  have hempty : ∀ {l l' : List FlowId}, l'.length = l.length → l'.isEmpty = l.isEmpty := by
    intro l l' hlen
    cases l <;> cases l' <;> simp_all
  simp only [addGateway, hin, hout, hempty hin, hempty hout, hr.node_id, hr.node_process]
  split
  · rename_i hone
    exact ht.tallies_addNodeStep ⟨Nat.le_of_eq hone.2.1, Nat.le_of_eq hone.2.2⟩ none
  split
  · exact ht.tallies_lacks n _
  split
  · exact ht.tallies_lacks n _
  refine (ht.tallies_sortedPlaces (hr.perm_incoming ht.linked ht.linked' n) fun f hf =>
    ((ht.linked.mem_incoming n f).1 hf).1).bind fun inputs => ?_
  refine (ht.tallies_sortedPlaces (hr.perm_outgoing ht.linked ht.linked' n) fun f hf =>
    ((ht.linked.mem_outgoing n f).1 hf).1).bind fun outputs => ?_
  cases kind with
  | parallel => exact (tallies_addStep _ _ _).bind fun _ => tallies_pure _
  | exclusive =>
    change Tallies τ (addChoices (g.node n).bare inputs outputs)
      (addChoices (h.node (σ n)).bare inputs outputs)
    rw [hr.node]
    exact tallies_addChoices _ _ _
  | inclusive => exact tallies_throw _

theorem tallies_addNode (ht : Twins σ τ g h) (n : NodeId) :
    Tallies τ (addNode g n) (addNode h (σ n)) := by
  have hr := ht.renames
  have hslim : ∀ kind, (g.node n).kind = kind → kind.isGateway = false → g.Slim n :=
    fun kind hkind hgateway => ht.slim (hkind ▸ hgateway)
  simp only [addNode, hr.node_kind, hr.node_process, ht.isRoot_eq, ht.node_displayName?]
  split
  · rename_i hkind
    refine (ht.tallies_outPlace (hslim _ hkind rfl).2).bind fun p => ?_
    split
    · exact tallies_markStart p
    · exact tallies_pure _
  · rename_i hkind
    refine (ht.tallies_inPlace (hslim _ hkind rfl).1).bind fun p => ?_
    split
    · exact tallies_modify fun c d h => ⟨h.net, h.initial, by rw [h.final], h.rootSink, h.flowPlaces⟩
    · exact tallies_pure _
  · rename_i hkind
    exact ht.tallies_addNodeStep (hslim _ hkind rfl) _
  · rename_i hkind
    exact ht.tallies_addNodeStep (hslim _ hkind rfl) _
  · rename_i hkind
    exact ht.tallies_addNodeStep (hslim _ hkind rfl) _
  · exact ht.tallies_addGateway n _ _
  · exact tallies_pure _
  · exact tallies_pure _

theorem tallies_addNodes (ht : Twins σ τ g h) : Tallies τ (addNodes g) (addNodes h) := by
  rw [addNodes, addNodes, ht.renames.sortedNodes_eq ht.distinct']
  exact tallies_forM fun n _ => ht.tallies_addNode n

/-! ## Subprocesses -/

theorem startsOf_eq (ht : Twins σ τ g h) (process : String) :
    h.startsOf process = (g.startsOf process).map σ :=
  ht.select_eq fun _ => rfl

theorem endsOf_eq (ht : Twins σ τ g h) (process : String) :
    h.endsOf process = (g.endsOf process).map σ :=
  ht.select_eq fun _ => rfl

theorem boundaryEventsOf_eq (ht : Twins σ τ g h) (activity : String) :
    h.boundaryEventsOf activity = (g.boundaryEventsOf activity).map σ :=
  ht.select_eq fun _ => rfl

theorem terminationsOf_eq (ht : Twins σ τ g h) (process : String) :
    h.terminationsOf process = (g.terminationsOf process).map σ :=
  ht.select_eq fun _ => rfl

theorem slim_of_isEnd (ht : Twins σ τ g h) (hkind : (g.node n).kind.isEnd) : g.Slim n :=
  ht.slim (by cases hk : (g.node n).kind <;> simp_all [NodeKind.isEnd, NodeKind.isGateway])

theorem filter_endsOf_eq (ht : Twins σ τ g h) (process : String) (keep : Node → Bool)
    (hkeep : ∀ x, keep x = keep x.bare) :
    (h.endsOf process).filter (fun n => keep (h.node n)) =
      ((g.endsOf process).filter fun n => keep (g.node n)).map σ := by
  rw [ht.endsOf_eq, List.filter_map]
  congr 1
  refine List.filter_congr fun n _ => ?_
  rw [Function.comp, hkeep, ht.renames.node, ← hkeep]

theorem tallies_normalEndPlaces (ht : Twins σ τ g h) (process : String) :
    Tallies τ (normalEndPlaces g process) (normalEndPlaces h process) := by
  rw [normalEndPlaces, normalEndPlaces,
    ht.filter_endsOf_eq process (fun x => x.kind = .endEvent .normal) fun _ => rfl]
  refine tallies_mapM fun n hn => ht.tallies_inPlace (ht.slim_of_isEnd ?_).1
  exact (mem_endsOf.1 (List.mem_filter.1 hn).1).2.2

theorem tallies_joinSubprocess (ht : Twins σ τ g h) (hkind : (g.node n).kind.isSubprocess) :
    Tallies τ (joinSubprocess g n) (joinSubprocess h (σ n)) := by
  have hr := ht.renames
  have hslim : g.Slim n :=
    ht.slim (by cases hk : (g.node n).kind <;> simp_all [NodeKind.isSubprocess, NodeKind.isGateway])
  simp only [joinSubprocess, hr.node_id, hr.node_process, ht.startsOf_eq]
  refine (ht.tallies_inPlace hslim.1).bind fun before =>
    (ht.tallies_outPlace hslim.2).bind fun behind => ?_
  refine (tallies_mapM fun m hm => ht.tallies_outPlace (ht.slim ?_).2).bind fun starts => ?_
  · have hstart := (mem_startsOf.1 hm).2.2
    cases hk : (g.node m).kind <;> simp_all [NodeKind.isStart, NodeKind.isGateway]
  refine tallies_unless (ht.tallies_lacks n _) ((ht.tallies_normalEndPlaces _).bind fun ends => ?_)
  refine tallies_unless (ht.tallies_lacks n _) ((tallies_addStep _ _ _).bind fun enter => ?_)
  exact (tallies_mapM_same fun _ _ => tallies_addStep _ _ _).bind fun _ => tallies_pure _

theorem tallies_joinSubprocesses (ht : Twins σ τ g h) :
    Tallies τ (joinSubprocesses g) (joinSubprocesses h) := by
  rw [joinSubprocesses, joinSubprocesses, ht.renames.subprocessesInnermostFirst_eq ht.distinct']
  exact tallies_mapM fun n hn =>
    ht.tallies_joinSubprocess (mem_subprocessesInnermostFirst.1 hn).2

/-! ## Boundary events -/

theorem slim_of_boundary (ht : Twins σ τ g h) {activity : String}
    (hn : n ∈ g.boundaryEventsOf activity) : g.Slim n := by
  obtain ⟨_, trigger, hkind⟩ := mem_boundaryEventsOf.1 hn
  exact ht.slim (by rw [hkind]; rfl)

theorem tallies_addTaskBoundaries (ht : Twins σ τ g h) (showEvents : Bool) :
    Tallies τ (addTaskBoundaries g showEvents) (addTaskBoundaries h showEvents) := by
  have hr := ht.renames
  rw [addTaskBoundaries, addTaskBoundaries, ht.select_eq fun _ => rfl]
  refine tallies_forM fun task htask => ?_
  have hkind : (g.node task).kind = .task := of_decide_eq_true (mem_select.1 htask).2
  rw [hr.node_id, ht.boundaryEventsOf_eq]
  refine tallies_forM fun event hevent => ?_
  simp only [addTaskBoundary, boundaryLabel, hr.node_id, hr.node_process, ht.node_displayName?]
  refine (ht.tallies_inPlace (ht.slim (by rw [hkind]; rfl)).1).bind fun p =>
    (ht.tallies_outPlace (ht.slim_of_boundary hevent).2).bind fun q => ?_
  exact (tallies_addStep _ _ _).bind fun _ => tallies_pure _

theorem tallies_collectEnd (ht : Twins σ τ g h) (found : List PlaceId)
    (hkind : (g.node n).kind.isEnd) :
    Tallies τ (collectEnd g found n) (collectEnd h found (σ n)) := by
  refine (ht.tallies_inPlace (ht.slim_of_isEnd hkind).1).bind fun p => tallies_get fun c d hcd => ?_
  rw [hcd.net]
  split <;> exact tallies_pure _

theorem tallies_mergeRaisingEnds (ht : Twins σ τ g h) (s : JoinedSubprocess) (n : NodeId)
    (trigger : BoundaryTrigger) :
    Tallies τ (mergeRaisingEnds g s (g.node n) trigger)
      (mergeRaisingEnds h s (h.node (σ n)) trigger) := by
  have hraising : raisingEnds h s.id (h.node (σ n)) trigger =
      (raisingEnds g s.id (g.node n) trigger).map σ := by
    rw [raisingEnds, raisingEnds, ht.node_eventName]
    exact ht.filter_endsOf_eq s.id (fun x =>
      x.kind = .endEvent trigger.endTrigger && x.eventName = (g.node n).eventName) fun _ => rfl
  simp only [mergeRaisingEnds, hraising, ht.renames.node_id, ht.node_eventName]
  refine (tallies_foldlM (ρ := σ) (fun found m hm =>
    ht.tallies_collectEnd (n := m) found ?_) []).bind fun ends => ?_
  · exact (mem_endsOf.1 (List.mem_filter.1 hm).1).2.2
  split
  · exact tallies_throw _
  · exact (tallies_forM_same fun _ _ => tallies_mergeInto _ _).bind fun _ => tallies_pure _

theorem tallies_addSubprocessBoundary (ht : Twins σ τ g h) (showEvents : Bool)
    (s : JoinedSubprocess) (found : Interruptions) (hn : n ∈ g.boundaryEventsOf s.id) :
    Tallies τ (addSubprocessBoundary g showEvents s found n)
      (addSubprocessBoundary h showEvents s found (σ n)) := by
  have hr := ht.renames
  simp only [addSubprocessBoundary, boundaryLabel, hr.node_kind, hr.node_id, ht.node_displayName?]
  split
  · refine (ht.tallies_outPlace (ht.slim_of_boundary hn).2).bind fun q =>
      (tallies_addTransition _).bind fun t => (tallies_addArc _).bind fun _ => ?_
    split
    · exact (ht.tallies_mergeRaisingEnds s n _).bind fun p =>
        (tallies_addArc _).bind fun _ => tallies_pure _
    · change Tallies τ (addGate s (g.node n).bare t >>= _) (addGate s (h.node (σ n)).bare t >>= _)
      rw [hr.node]
      exact (tallies_addGate s _ t).bind fun _ => tallies_pure _
  · exact tallies_pure _

theorem scopePlaces_eq (ht : Twins σ τ g h) (n : Net) (process : String) :
    scopePlaces h n process = scopePlaces g n process := by
  rw [scopePlaces, scopePlaces, ht.isRoot_eq]

theorem tallies_addSubprocessBoundaries (ht : Twins σ τ g h) (showEvents : Bool)
    (s : JoinedSubprocess) :
    Tallies τ (addSubprocessBoundaries g showEvents s) (addSubprocessBoundaries h showEvents s) := by
  simp only [addSubprocessBoundaries, ht.boundaryEventsOf_eq, List.isEmpty_map, ht.scopePlaces_eq]
  split
  · exact tallies_pure _
  · refine (tallies_foldlM (ρ := σ) (fun found n hn =>
      ht.tallies_addSubprocessBoundary showEvents s found hn) _).bind fun found => ?_
    refine tallies_get fun c d hcd => ?_
    rw [hcd.net]
    exact (tallies_forM_same fun _ _ => tallies_clearOnEntry _ _).bind fun _ =>
      tallies_forM_same fun _ _ => tallies_addResets _ _

/-! ## Terminate ends -/

theorem slim_of_termination (ht : Twins σ τ g h) {process : String}
    (hn : n ∈ g.terminationsOf process) : g.Slim n := by
  have hkind := (mem_select.1 hn).2
  rw [Bool.and_eq_true, decide_eq_true_eq, decide_eq_true_eq] at hkind
  exact ht.slim (by rw [hkind.2]; rfl)

theorem tallies_terminateSubprocess (ht : Twins σ τ g h) (s : JoinedSubprocess) :
    Tallies τ (terminateSubprocess g s) (terminateSubprocess h s) := by
  simp only [terminateSubprocess, ht.terminationsOf_eq, List.zip_map_left, ht.scopePlaces_eq]
  refine (tallies_mapM fun n hn => ht.tallies_inPlace (ht.slim_of_termination hn).1).bind
    fun own => tallies_forM fun e _ => tallies_get fun c d hcd => ?_
  simp only [hcd.net, Prod.map, ht.renames.node_id, id]
  exact (tallies_clearOnEntry _ _).bind fun _ => (tallies_addStep _ _ _).bind fun _ =>
    tallies_pure _

theorem tallies_terminateRoot (ht : Twins σ τ g h) :
    Tallies τ (terminateRoot g) (terminateRoot h) := by
  simp only [terminateRoot, ht.terminationsOf_eq, List.zip_map_left, ht.scopePlaces_eq,
    ht.renames.processId]
  refine (tallies_mapM fun n hn => ht.tallies_inPlace (ht.slim_of_termination hn).1).bind
    fun own => tallies_forM fun e _ => tallies_get fun c d hcd => ?_
  rw [hcd.rootSink]
  split
  · exact ht.tallies_lacks e.1 _
  · refine tallies_get fun c d hcd => ?_
    simp only [hcd.net, Prod.map, ht.renames.node_id, id]
    exact (tallies_clearOnEntry _ _).bind fun _ => (tallies_addStep _ _ _).bind fun _ =>
      tallies_pure _

/-- `construct` does the same for both graphs. -/
theorem tallies_construct (ht : Twins σ τ g h) (showEvents : Bool) :
    Tallies τ (construct g showEvents) (construct h showEvents) := by
  refine ht.tallies_addFlowPlaces.bind fun _ => ht.tallies_addNodes.bind fun _ =>
    ht.tallies_joinSubprocesses.bind fun l => (ht.tallies_addTaskBoundaries showEvents).bind
      fun _ => Tallies.bind ?_ fun _ => ht.tallies_terminateRoot
  exact tallies_forM_same fun s _ => (ht.tallies_addSubprocessBoundaries showEvents s).bind
    fun _ => (ht.tallies_terminateSubprocess s).bind fun _ => tallies_absorb s

end Twins

end ProcessNet.Construction
