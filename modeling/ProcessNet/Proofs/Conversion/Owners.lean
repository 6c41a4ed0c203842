/-
Who owns the steps of the catalogue. Each step is owned by a node, each node owns as many as its kind says,
and a step is labelled just if its owner has a name to show and shows it.
-/
import Mathlib.Algebra.GroupWithZero.Nat
import ProcessNet.Proofs.Conversion.Catalogue
import ProcessNet.Proofs.Conversion.Clearance
import ProcessNet.Proofs.Process.Sound

namespace ProcessNet

open Identifier

/-- The number of steps that a node owns. -/
def owned (n : NodeId) (l : List Step) : Nat := l.countP fun s => s.owner = n

section Owned

variable {n : NodeId} {l l' : List Step} {nodes : List NodeId} {F : NodeId → List Step}

theorem owned_append : owned n (l ++ l') = owned n l + owned n l' := List.countP_append

theorem owned_eq_zero (h : ∀ s ∈ l, s.owner ≠ n) : owned n l = 0 := by
  rw [owned, List.countP_eq_zero]
  exact fun s hs => by simpa using h s hs

/-- A node that owns all of the steps. -/
theorem owned_eq_length (h : ∀ s ∈ l, s.owner = n) : owned n l = l.length := by
  rw [owned, List.countP_eq_length]
  exact fun s hs => by simpa using h s hs

/-- One step for each node of a list. -/
theorem owned_map {F : NodeId → Step} (hnodup : nodes.Nodup) (hF : ∀ m, (F m).owner = m) :
    owned n (nodes.map F) = if n ∈ nodes then 1 else 0 := by
  have hcount : owned n (nodes.map F) = nodes.count n := by
    rw [owned, List.countP_map, List.count]
    exact List.countP_congr fun m _ => by simp [hF]
  rw [hcount]
  split
  · rename_i hn
    exact List.count_eq_one_of_mem hnodup hn
  · rename_i hn
    exact List.count_eq_zero_of_not_mem hn

/-- The steps of several parts, of which the node owns some of one part only. -/
theorem owned_flatMap {m : NodeId} (hnodup : nodes.Nodup)
    (hother : ∀ k ∈ nodes, k ≠ m → owned n (F k) = 0) :
    owned n (nodes.flatMap F) = if m ∈ nodes then owned n (F m) else 0 := by
  rw [owned, List.countP_flatMap]
  have hsum := List.sum_map_eq_nsmul_single m (fun k => owned n (F k)) (l := nodes)
    fun k hne hk => hother k hk hne
  refine hsum.trans ?_
  split
  · rename_i hm
    rw [List.count_eq_one_of_mem hnodup hm, one_nsmul]
  · rename_i hm
    rw [List.count_eq_zero_of_not_mem hm, zero_nsmul]

/-- Each step is owned by one node. -/
theorem length_eq_sum_owned (hnodup : nodes.Nodup) (h : ∀ s ∈ l, s.owner ∈ nodes) :
    l.length = (nodes.map fun n => owned n l).sum := by
  induction l with
  | nil => simp [owned]
  | cons s l ih =>
    have hone : (nodes.map fun n => if s.owner = n then 1 else 0).sum = 1 := by
      have hsum := List.sum_map_eq_nsmul_single s.owner (fun n => if s.owner = n then 1 else 0)
        (l := nodes) fun n hne _ => if_neg (Ne.symm hne)
      rw [hsum, if_pos rfl, List.count_eq_one_of_mem hnodup (h s List.mem_cons_self), one_nsmul]
    have hrest := ih fun r hr => h r (List.mem_cons_of_mem _ hr)
    have hcons : ∀ n, owned n (s :: l) = owned n l + if s.owner = n then 1 else 0 := fun n => by
      simp [owned, List.countP_cons]
    simp only [hcons, List.sum_map_add, hone, List.length_cons, hrest]

end Owned

namespace ProcessGraph

open Construction

variable {g : ProcessGraph} {n m : NodeId} {s : Step} {showEvents : Bool}

/-- The number of steps that a node has by its kind. -/
def stepCount (g : ProcessGraph) (n : NodeId) : Nat :=
  match (g.node n).kind with
  | .task | .catchEvent _ | .throwEvent _ | .boundaryEvent _ _ => 1
  | .gateway .parallel _ => 1
  | .gateway .exclusive _ => (g.node n).incoming.length * (g.node n).outgoing.length
  | .gateway .inclusive _ => 0
  | .subprocess _ => 1 + (g.normalEndsOf (g.node n).id).length
  | .endEvent .terminate => 1
  | .endEvent _ | .startEvent _ => 0

/-- The label of the steps of a node: tasks and intermediate events show their names, boundary events
where events are shown. -/
def stepLabel? (g : ProcessGraph) (showEvents : Bool) (n : NodeId) : Option String :=
  match (g.node n).kind with
  | .task | .catchEvent _ | .throwEvent _ => (g.node n).displayName?
  | .boundaryEvent _ _ => boundaryLabel showEvents (g.node n)
  | _ => none

/-! ## Owners of the parts -/

theorem length_branches : (g.branches n).length =
    (g.node n).incoming.length * (g.node n).outgoing.length := by
  simp [branches, inOrder, List.length_flatMap]

/-- A step of a node's own is its only one, which passes all its flows, or one for a branch of an exclusive
gateway. The gateway has the former only where it is not said to split or to join. -/
theorem mem_nodeSteps (showEvents : Bool) (hs : s ∈ g.nodeSteps n) :
    (s = g.passStep n (g.stepLabel? showEvents n) ∧ ∀ direction,
        (g.node n).kind = .gateway .exclusive direction → direction = .unspecified) ∨
      ∃ direction, (g.node n).kind = .gateway .exclusive direction ∧ s ∈ g.choiceSteps n := by
  unfold nodeSteps at hs
  unfold stepLabel?
  cases hkind : (g.node n).kind with
  | task | catchEvent | throwEvent =>
    simp only [hkind] at hs
    exact .inl ⟨List.mem_singleton.1 hs, fun _ he => by cases he⟩
  | subprocess | startEvent | endEvent | boundaryEvent =>
    simp only [hkind] at hs
    cases hs
  | gateway kind direction =>
    simp only [hkind] at hs
    cases kind with
    | parallel => exact .inl ⟨List.mem_singleton.1 hs, fun _ he => by cases he⟩
    | exclusive =>
      dsimp only at hs
      split at hs
      · rename_i hplain
        refine .inl ⟨List.mem_singleton.1 hs, fun _ he => ?_⟩
        cases he
        exact hplain.1
      · exact .inr ⟨direction, rfl, hs⟩
    | inclusive => cases hs

theorem owner_of_mem_nodeSteps (hs : s ∈ g.nodeSteps n) : s.owner = n := by
  rcases mem_nodeSteps true hs with ⟨rfl, -⟩ | ⟨_, -, hs⟩
  · rfl
  · obtain ⟨_, _, rfl⟩ := List.mem_map.1 hs
    rfl

theorem owner_of_mem_joinSteps (hs : s ∈ g.joinSteps n) : s.owner = n := by
  rcases List.mem_cons.1 hs with rfl | hs
  · rfl
  · obtain ⟨_, _, rfl⟩ := List.mem_map.1 hs
    rfl

theorem length_joinSteps : (g.joinSteps n).length = 1 + (g.normalEndsOf (g.node n).id).length := by
  simp [joinSteps, exitSteps, Nat.add_comm]

theorem owned_taskEventSteps : owned n (g.taskEventSteps showEvents m) =
    if n ∈ g.boundaryEventsOf (g.node m).id then 1 else 0 :=
  owned_map (nodup_select _) fun _ => rfl

theorem owned_finishSteps : owned n (g.finishSteps showEvents m) =
    (if n ∈ g.boundaryEventsOf (g.node m).id then 1 else 0) +
      if n ∈ g.terminationsOf (g.node m).id then 1 else 0 := by
  rw [finishSteps, owned_append]
  exact congrArg₂ (· + ·) (owned_map (nodup_select _) fun _ => rfl)
    (owned_map (nodup_select _) fun _ => rfl)

theorem owned_rootTerminationSteps : owned n g.rootTerminationSteps =
    if n ∈ g.terminationsOf g.processId then 1 else 0 :=
  owned_map (nodup_select _) fun _ => rfl

theorem nodup_subprocessesInnermostFirst (g : ProcessGraph) : g.subprocessesInnermostFirst.Nodup :=
  (List.mergeSort_perm _ _).nodup_iff.2 (nodup_select _)

/-- What a node owns of its own steps. -/
theorem owned_nodeSteps (hn : index n < g.nodes.size) :
    owned n (g.sortedNodes.flatMap g.nodeSteps) = (g.nodeSteps n).length := by
  rw [owned_flatMap (m := n) (nodup_sortedNodes g), if_pos (mem_sortedNodes.2 hn),
    owned_eq_length fun s => owner_of_mem_nodeSteps]
  exact fun k _ hk => owned_eq_zero fun s hs he => hk ((owner_of_mem_nodeSteps hs).symm.trans he)

theorem owned_joinSteps : owned n (g.subprocessesInnermostFirst.flatMap g.joinSteps) =
    if (g.node n).kind.isSubprocess then 1 + (g.normalEndsOf (g.node n).id).length else 0 := by
  have hmem : n ∈ g.subprocessesInnermostFirst ↔ (g.node n).kind.isSubprocess :=
    ⟨fun h => (mem_subprocessesInnermostFirst.1 h).2, mem_of_isSubprocess⟩
  rw [owned_flatMap (m := n) (nodup_subprocessesInnermostFirst g),
    owned_eq_length fun s => owner_of_mem_joinSteps, length_joinSteps]
  · simp only [hmem]
  · exact fun k _ hk => owned_eq_zero fun s hs he => hk ((owner_of_mem_joinSteps hs).symm.trans he)

/-- A node that is neither a boundary event nor a terminate end owns no other steps. -/
theorem owned_other (showEvents : Bool) (hevent : ∀ id, n ∉ g.boundaryEventsOf id)
    (hend : ∀ id, n ∉ g.terminationsOf id) :
    owned n ((g.select (·.kind = .task)).flatMap (g.taskEventSteps showEvents)) = 0 ∧
      owned n (g.subprocessesInnermostFirst.flatMap (g.finishSteps showEvents)) = 0 ∧
      owned n g.rootTerminationSteps = 0 := by
  refine ⟨?_, ?_, ?_⟩
  · rw [owned_flatMap (m := n) (nodup_select _) fun k _ _ => by
      rw [owned_taskEventSteps, if_neg (hevent _)], owned_taskEventSteps, if_neg (hevent _), ite_self]
  · rw [owned_flatMap (m := n) (nodup_subprocessesInnermostFirst g) fun k _ _ => by
      rw [owned_finishSteps, if_neg (hevent _), if_neg (hend _)], owned_finishSteps, if_neg (hevent _),
      if_neg (hend _), ite_self]
  · rw [owned_rootTerminationSteps, if_neg (hend _)]

/-- A boundary event owns one step, that of the activity that it is on. -/
theorem owned_event (showEvents : Bool) (hg : g.Sound) (hn : index n < g.nodes.size)
    {trigger : BoundaryTrigger} {activity : String} (hkind : (g.node n).kind = .boundaryEvent trigger activity) :
    owned n ((g.select (·.kind = .task)).flatMap (g.taskEventSteps showEvents)) +
      owned n (g.subprocessesInnermostFirst.flatMap (g.finishSteps showEvents)) +
      owned n g.rootTerminationSteps = 1 := by
  obtain ⟨x, hx, hid, hactivity⟩ := (hg.node n hn).boundary trigger activity hkind
  obtain ⟨a, ha, rfl⟩ := ProcessDeclaration.mem_nodes_ofGraph.1 hx
  have hon : ∀ id, n ∈ g.boundaryEventsOf id ↔ id = activity := by
    intro id
    rw [mem_boundaryEventsOf, hkind]
    constructor
    · rintro ⟨_, _, he⟩
      cases he
      rfl
    · rintro rfl
      exact ⟨hn, trigger, rfl⟩
  have hend : ∀ id, n ∉ g.terminationsOf id := fun id hmem => by
    have hterm := (mem_terminationsOf.1 hmem).2.2
    rw [hkind] at hterm
    cases hterm
  have hone : ∀ k, index k < g.nodes.size → k ≠ a → (g.node k).id ≠ activity :=
    fun k hk hne he => hne (hg.distinct.node k a hk ha (he.trans hid.symm))
  have hmem : n ∈ g.boundaryEventsOf (g.node a).id := (hon _).2 hid
  rw [owned_flatMap (m := a) (nodup_select _) fun k hk hne => by
      rw [owned_taskEventSteps, if_neg fun h => hone k (mem_select.1 hk).1 hne ((hon _).1 h)],
    owned_flatMap (m := a) (nodup_subprocessesInnermostFirst g) fun k hk hne => by
      rw [owned_finishSteps, if_neg (hend _),
        if_neg fun h => hone k (mem_subprocessesInnermostFirst.1 hk).1 hne ((hon _).1 h)],
    owned_taskEventSteps, owned_finishSteps, owned_rootTerminationSteps, if_pos hmem, if_neg (hend _),
    if_neg (hend _)]
  have hkinda : (g.node a).kind.isActivity := hactivity
  cases hk : (g.node a).kind with
  | task => simp [mem_select, mem_subprocessesInnermostFirst, ha, hk, NodeKind.isSubprocess]
  | subprocess => simp [mem_select, mem_subprocessesInnermostFirst, ha, hk, NodeKind.isSubprocess]
  | startEvent | endEvent | catchEvent | throwEvent | boundaryEvent | gateway =>
    rw [hk] at hkinda
    cases hkinda

/-- A terminate end owns one step, that of the process that it ends. -/
theorem owned_termination (showEvents : Bool) (hg : g.Sound) (hn : index n < g.nodes.size)
    (hkind : (g.node n).kind = .endEvent .terminate) :
    owned n ((g.select (·.kind = .task)).flatMap (g.taskEventSteps showEvents)) +
      owned n (g.subprocessesInnermostFirst.flatMap (g.finishSteps showEvents)) +
      owned n g.rootTerminationSteps = 1 := by
  have hends : ∀ id, n ∈ g.terminationsOf id ↔ (g.node n).process = id := fun id => by
    rw [mem_terminationsOf]
    exact ⟨fun h => h.2.1, fun h => ⟨hn, h, hkind⟩⟩
  have hon : ∀ id, n ∉ g.boundaryEventsOf id := fun id hmem => by
    obtain ⟨_, _, he⟩ := mem_boundaryEventsOf.1 hmem
    rw [hkind] at he
    cases he
  have hrooted := hg.rooted
  have htasks : owned n ((g.select (·.kind = .task)).flatMap (g.taskEventSteps showEvents)) = 0 := by
    rw [owned_flatMap (m := n) (nodup_select _) fun k _ _ => by
      rw [owned_taskEventSteps, if_neg (hon _)], owned_taskEventSteps, if_neg (hon _), ite_self]
  rw [htasks, owned_rootTerminationSteps, Nat.zero_add]
  rcases hrooted.node n hn with hroot | ⟨a, ha, hid⟩
  · have hnone : ∀ k ∈ g.subprocessesInnermostFirst, n ∉ g.terminationsOf (g.node k).id := by
      intro k hk h
      exact hrooted.layered.apart k (mem_subprocessesInnermostFirst.1 hk).1
        (((hends _).1 h).symm.trans hroot)
    have hzero : owned n (g.subprocessesInnermostFirst.flatMap (g.finishSteps showEvents)) = 0 := by
      refine owned_eq_zero fun s hs he => ?_
      obtain ⟨k, hk, hs⟩ := List.mem_flatMap.1 hs
      have hcount : owned n (g.finishSteps showEvents k) = 0 := by
        rw [owned_finishSteps, if_neg (hon _), if_neg (hnone k hk)]
      rw [owned, List.countP_eq_zero] at hcount
      exact hcount s hs (decide_eq_true he)
    rw [hzero, if_pos ((hends _).2 hroot)]
  · have ha' := mem_of_isSubprocess ha
    have hlt := lt_of_isSubprocess ha
    rw [owned_flatMap (m := a) (nodup_subprocessesInnermostFirst g) fun k hk hne => by
        rw [owned_finishSteps, if_neg (hon _), if_neg]
        intro h
        exact hne (hg.distinct.node k a (mem_subprocessesInnermostFirst.1 hk).1 hlt
          (((hends _).1 h).symm.trans hid.symm)),
      if_pos ha', owned_finishSteps, if_neg (hon _), if_pos ((hends _).2 hid.symm), if_neg]
    intro h
    exact hrooted.layered.apart a hlt (hid.trans ((hends _).1 h))

/-- Each node owns as many steps as its kind says. -/
theorem owned_steps (hg : g.Sound) (hn : index n < g.nodes.size) :
    owned n (g.steps showEvents) = g.stepCount n := by
  rw [steps, owned_append, owned_append, owned_append, owned_append, owned_nodeSteps hn, owned_joinSteps]
  -- only boundary events and terminate ends own steps besides those of their own
  have hother : (∀ trigger activity, (g.node n).kind ≠ .boundaryEvent trigger activity) →
      (g.node n).kind ≠ .endEvent .terminate →
      owned n ((g.select (·.kind = .task)).flatMap (g.taskEventSteps showEvents)) +
        owned n (g.subprocessesInnermostFirst.flatMap (g.finishSteps showEvents)) +
        owned n g.rootTerminationSteps = 0 := by
    intro hevent hend
    obtain ⟨h₁, h₂, h₃⟩ := owned_other (n := n) showEvents
      (fun id h => (mem_boundaryEventsOf.1 h).2.elim fun t he => hevent t id he)
      fun id h => hend (mem_terminationsOf.1 h).2.2
    rw [h₁, h₂, h₃]
  have hevent : ∀ trigger activity, (g.node n).kind = .boundaryEvent trigger activity → _ :=
    fun _ _ => owned_event showEvents hg hn
  have hend := owned_termination showEvents hg hn
  unfold stepCount nodeSteps
  cases hkind : (g.node n).kind with
  | task | catchEvent | throwEvent | startEvent =>
    have := hother (by simp [hkind]) (by simp [hkind])
    simp [NodeKind.isSubprocess]
    omega
  | subprocess =>
    have := hother (by simp [hkind]) (by simp [hkind])
    simp [NodeKind.isSubprocess]
    omega
  | boundaryEvent trigger activity =>
    have := hevent trigger activity hkind
    simp [NodeKind.isSubprocess]
    omega
  | endEvent trigger =>
    cases trigger with
    | terminate =>
      have := hend hkind
      simp [NodeKind.isSubprocess]
      omega
    | normal | error | cancel | message =>
      have := hother (by simp [hkind]) (by simp [hkind])
      simp [NodeKind.isSubprocess]
      omega
  | gateway kind direction =>
    have := hother (by simp [hkind]) (by simp [hkind])
    cases kind with
    | parallel | inclusive =>
      simp [NodeKind.isSubprocess]
      omega
    | exclusive =>
      -- a gateway that is not said to split or to join has one flow on each side, so its single step counts as one
      have hlen : (if g.IsPlain n direction then [g.passStep n none] else g.choiceSteps n).length =
          (g.node n).incoming.length * (g.node n).outgoing.length := by
        split
        · rename_i hplain
          rw [hplain.2.1, hplain.2.2]
          rfl
        · simp [choiceSteps, length_branches]
      simp only [NodeKind.isSubprocess, hlen]
      simp
      omega

/-! ## Labels -/

theorem label_of_mem_nodeSteps (hs : s ∈ g.nodeSteps n) : s.label = g.stepLabel? showEvents n := by
  rcases mem_nodeSteps showEvents hs with ⟨rfl, -⟩ | ⟨_, hkind, hs⟩
  · rfl
  · obtain ⟨_, _, rfl⟩ := List.mem_map.1 hs
    rw [stepLabel?, hkind]

theorem label_of_mem_joinSteps (hn : (g.node n).kind.isSubprocess) (hs : s ∈ g.joinSteps n) :
    s.label = g.stepLabel? showEvents n := by
  have hnone : g.stepLabel? showEvents n = none := by
    unfold stepLabel?
    cases hkind : (g.node n).kind with
    | subprocess | startEvent | endEvent | gateway => rfl
    | task | catchEvent | throwEvent | boundaryEvent =>
      rw [hkind] at hn
      cases hn
  rw [hnone]
  rcases List.mem_cons.1 hs with rfl | hs
  · rfl
  · obtain ⟨_, _, rfl⟩ := List.mem_map.1 hs
    rfl

theorem label_of_boundaryStep {activity : NodeId} {takes : List FlowId} {id : String}
    (hn : n ∈ g.boundaryEventsOf id) :
    (g.boundaryStep showEvents activity n takes).label = g.stepLabel? showEvents n := by
  obtain ⟨_, trigger, hkind⟩ := mem_boundaryEventsOf.1 hn
  rw [stepLabel?, hkind]
  rfl

theorem stepLabel?_of_termination {id : String} (hn : n ∈ g.terminationsOf id) :
    g.stepLabel? showEvents n = none := by
  rw [stepLabel?, (mem_terminationsOf.1 hn).2.2]

/-- Each step is owned by a node that is there, and has the label that this node gives it. -/
theorem label_of_mem_steps (hs : s ∈ g.steps showEvents) :
    index s.owner < g.nodes.size ∧ s.label = g.stepLabel? showEvents s.owner := by
  simp only [steps, List.mem_append] at hs
  rcases hs with (((hs | hs) | hs) | hs) | hs
  · obtain ⟨n, hn, hs⟩ := List.mem_flatMap.1 hs
    rw [owner_of_mem_nodeSteps hs]
    exact ⟨mem_sortedNodes.1 hn, label_of_mem_nodeSteps hs⟩
  · obtain ⟨n, hn, hs⟩ := List.mem_flatMap.1 hs
    obtain ⟨hlt, hkind⟩ := mem_subprocessesInnermostFirst.1 hn
    rw [owner_of_mem_joinSteps hs]
    exact ⟨hlt, label_of_mem_joinSteps hkind hs⟩
  · obtain ⟨task, _, hs⟩ := List.mem_flatMap.1 hs
    obtain ⟨m, hm, rfl⟩ := List.mem_map.1 hs
    exact ⟨(mem_boundaryEventsOf.1 hm).1, label_of_boundaryStep hm⟩
  · obtain ⟨n, _, hs⟩ := List.mem_flatMap.1 hs
    rcases List.mem_append.1 hs with hs | hs
    · obtain ⟨m, hm, rfl⟩ := List.mem_map.1 hs
      exact ⟨(mem_boundaryEventsOf.1 hm).1, label_of_boundaryStep hm⟩
    · obtain ⟨m, hm, rfl⟩ := List.mem_map.1 hs
      exact ⟨(mem_terminationsOf.1 hm).1, (stepLabel?_of_termination hm).symm⟩
  · obtain ⟨m, hm, rfl⟩ := List.mem_map.1 hs
    exact ⟨(mem_terminationsOf.1 hm).1, (stepLabel?_of_termination hm).symm⟩

/-- There are as many steps as the kinds of all nodes say. -/
theorem length_steps (hg : g.Sound) :
    (g.steps showEvents).length = (g.sortedNodes.map g.stepCount).sum := by
  rw [length_eq_sum_owned (nodup_sortedNodes g) fun s hs =>
    mem_sortedNodes.2 (label_of_mem_steps hs).1]
  exact congrArg List.sum (List.map_congr_left fun n hn => owned_steps hg (mem_sortedNodes.1 hn))

/-! ## Flows -/

/-- Steps take from flows that are there, and give to such flows. -/
structure StepFits (g : ProcessGraph) (s : Step) : Prop where
  takes : ∀ f ∈ s.takes, index f < g.flows.size
  gives : ∀ f ∈ s.gives, index f < g.flows.size

theorem fits_of_mem_nodeSteps (hg : g.Linked) (hs : s ∈ g.nodeSteps n) : g.StepFits s := by
  have hin : ∀ f ∈ (g.node n).incoming, index f < g.flows.size := fun f hf =>
    ((hg.mem_incoming n f).1 hf).1
  have hout : ∀ f ∈ (g.node n).outgoing, index f < g.flows.size := fun f hf =>
    ((hg.mem_outgoing n f).1 hf).1
  rcases mem_nodeSteps true hs with ⟨rfl, -⟩ | ⟨_, -, hs⟩
  · exact ⟨hin, hout⟩
  · obtain ⟨⟨⟨f, k⟩, i⟩, he, rfl⟩ := List.mem_map.1 hs
    obtain ⟨hf, hk⟩ := mem_of_choice he
    exact ⟨fun _ h => List.mem_singleton.1 h ▸ hin f (List.mem_mergeSort.1 hf),
      fun _ h => List.mem_singleton.1 h ▸ hout k (List.mem_mergeSort.1 hk)⟩

theorem fits_of_mem_steps (hg : g.Linked) (hs : s ∈ g.steps showEvents) : g.StepFits s := by
  have hin : ∀ m f, f ∈ (g.node m).incoming → index f < g.flows.size := fun m f hf =>
    ((hg.mem_incoming m f).1 hf).1
  have hout : ∀ m f, f ∈ (g.node m).outgoing → index f < g.flows.size := fun m f hf =>
    ((hg.mem_outgoing m f).1 hf).1
  simp only [steps, List.mem_append] at hs
  rcases hs with (((hs | hs) | hs) | hs) | hs
  · obtain ⟨n, _, hs⟩ := List.mem_flatMap.1 hs
    exact fits_of_mem_nodeSteps hg hs
  · obtain ⟨n, _, hs⟩ := List.mem_flatMap.1 hs
    rcases List.mem_cons.1 hs with rfl | hs
    · refine ⟨hin n, fun f hf => ?_⟩
      obtain ⟨m, _, hf⟩ := List.mem_flatMap.1 hf
      exact hout m f hf
    · obtain ⟨_, _, rfl⟩ := List.mem_map.1 hs
      exact ⟨hin _, hout n⟩
  · obtain ⟨task, _, hs⟩ := List.mem_flatMap.1 hs
    obtain ⟨m, _, rfl⟩ := List.mem_map.1 hs
    exact ⟨hin task, hout m⟩
  · obtain ⟨n, _, hs⟩ := List.mem_flatMap.1 hs
    rcases List.mem_append.1 hs with hs | hs
    · obtain ⟨m, _, rfl⟩ := List.mem_map.1 hs
      refine ⟨fun f hf => ?_, hout m⟩
      obtain ⟨e, _, hf⟩ := List.mem_flatMap.1 hf
      exact hin e f hf
    · obtain ⟨m, _, rfl⟩ := List.mem_map.1 hs
      exact ⟨hin m, hout n⟩
  · obtain ⟨m, _, rfl⟩ := List.mem_map.1 hs
    exact ⟨hin m, fun f hf => mem_sortedFlows.1 (List.mem_filter.1 hf).1⟩

end ProcessGraph

end ProcessNet
