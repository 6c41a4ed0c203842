/-
What a process needs so that it has a net. Tokens come to most nodes by flows and leave them by flows; a
subprocess holds a start and a normal end, and for each error and each cancellation on it an end that
raises it. Gateway form needs just the same.
-/
import ProcessNet.Proofs.Conversion.Interruption
import ProcessNet.Proofs.Process.Attached
import ProcessNet.Proofs.Process.Sound

namespace ProcessNet

open Identifier

namespace NodeKind

/-- Whether tokens come to such a node by flows. Starts and events on activities have none. -/
def needsIncoming : NodeKind → Bool
  | .startEvent _ | .boundaryEvent _ _ => false
  | _ => true

/-- Whether tokens leave such a node by flows. -/
def needsOutgoing : NodeKind → Bool
  | .endEvent _ => false
  | _ => true

end NodeKind

namespace ProcessGraph

open Construction

variable {g g' : ProcessGraph} {n m : NodeId} {process : String}

/-- The node has a flow on each side where it needs one. -/
structure Served (g : ProcessGraph) (n : NodeId) : Prop where
  incoming : (g.node n).kind.needsIncoming → (g.node n).incoming ≠ []
  outgoing : (g.node n).kind.needsOutgoing → (g.node n).outgoing ≠ []

/-- Tokens get into the subprocess and through it: it directly holds a start and a normal end. -/
structure Passable (g : ProcessGraph) (n : NodeId) : Prop where
  start : g.startsOf (g.node n).id ≠ []
  normalEnd : g.normalEndsOf (g.node n).id ≠ []

/-- Some end directly in the process raises the event, if it is an error or a cancellation. -/
def RaisedIn (g : ProcessGraph) (process : String) (m : NodeId) : Prop :=
  ∀ trigger activity, (g.node m).kind = .boundaryEvent trigger activity → trigger.isInternal →
    raisingEnds g process (g.node m) trigger ≠ []

/-- No node lacks what `construct` needs of it, flows into the sink of the root process apart. -/
structure Furnished (g : ProcessGraph) : Prop where
  served : ∀ n, index n < g.nodes.size → g.Served n
  passable : ∀ n, (g.node n).kind.isSubprocess → g.Passable n
  raised : ∀ n, (g.node n).kind.isSubprocess → ∀ m ∈ g.boundaryEventsOf (g.node n).id,
    g.RaisedIn (g.node n).id m

/-- What `terminateRoot` needs: where the root process has a terminate end, some flow leads into a normal
end of it that leaves no start. -/
def Concluded (g : ProcessGraph) : Prop :=
  g.terminationsOf g.processId ≠ [] → ∃ f, index f < g.flows.size ∧ entersRootEnd g (g.flow f)

/-- The activity of a boundary event. -/
theorem Sound.exists_activity (hg : g.Sound) {trigger : BoundaryTrigger} {activity : String}
    (hkind : (g.node n).kind = .boundaryEvent trigger activity) :
    ∃ a, index a < g.nodes.size ∧ (g.node a).id = activity ∧ (g.node a).kind.isActivity := by
  have hn : index n < g.nodes.size := lt_of_kind fun he => by rw [hkind] at he; cases he
  obtain ⟨x, hx, hid, hactivity⟩ := (hg.node n hn).boundary trigger activity hkind
  obtain ⟨a, ha, rfl⟩ := ProcessDeclaration.mem_nodes_ofGraph.1 hx
  exact ⟨a, ha, hid, hactivity⟩

/-! ## Gateway form -/

/-- `normalize` leaves the nodes of each kind other than gateways that were there before. -/
theorem Refines.exists_iff (h : Refines g g') {P : Node → Prop} (hbare : ∀ x, P x ↔ P x.bare)
    (hgateway : ∀ x d, x.kind = .gateway .exclusive d → ¬ P x) :
    (∃ m, index m < g'.nodes.size ∧ P (g'.node m)) ↔ ∃ m, index m < g.nodes.size ∧ P (g.node m) :=
  exists_congr fun _ => h.node_iff hbare hgateway

theorem ne_nil_iff_exists_mem {α : Type} {l : List α} : l ≠ [] ↔ ∃ a, a ∈ l :=
  List.isEmpty_eq_false_iff.symm.trans List.isEmpty_eq_false_iff_exists_mem

theorem Refines.startsOf_ne_nil_iff (h : Refines g g') : g'.startsOf process ≠ [] ↔ g.startsOf process ≠ [] := by
  simp only [ne_nil_iff_exists_mem, mem_startsOf]
  refine h.exists_iff (P := fun x => x.process = process ∧ x.kind.isStart) (fun _ => Iff.rfl)
    fun x d hd hx => ?_
  rw [hd] at hx
  cases hx.2

theorem Refines.normalEndsOf_ne_nil_iff (h : Refines g g') :
    g'.normalEndsOf process ≠ [] ↔ g.normalEndsOf process ≠ [] := by
  simp only [ne_nil_iff_exists_mem, mem_normalEndsOf]
  refine h.exists_iff (P := fun x => x.process = process ∧ x.kind = .endEvent .normal) (fun _ => Iff.rfl)
    fun x d hd hx => ?_
  rw [hd] at hx
  cases hx.2

theorem Refines.raisingEnds_ne_nil_iff (h : Refines g g') {event event' : Node} {trigger : BoundaryTrigger}
    (hname : event'.eventName = event.eventName) :
    raisingEnds g' process event' trigger ≠ [] ↔ raisingEnds g process event trigger ≠ [] := by
  simp only [ne_nil_iff_exists_mem, mem_raisingEnds, hname]
  refine h.exists_iff (P := fun x => x.process = process ∧ x.kind = .endEvent trigger.endTrigger ∧
    x.eventName = event.eventName) (fun _ => Iff.rfl) fun x d hd hx => ?_
  rw [hd] at hx
  cases hx.2.1

/-- Nodes have flows where they need them after `normalize` if and only if they had them before. -/
theorem Attached.served_iff (h : Attached g g') :
    (∀ n, index n < g'.nodes.size → g'.Served n) ↔ ∀ n, index n < g.nodes.size → g.Served n := by
  have hold : ∀ n, index n < g.nodes.size → (g'.Served n ↔ g.Served n) := by
    intro n hn
    have hkind := (h.refines.id_eq hn).2.2
    constructor
    · rintro ⟨hin, hout⟩
      rw [hkind, ne_eq, h.incoming n hn] at hin
      rw [hkind, ne_eq, h.outgoing n hn] at hout
      exact ⟨hin, hout⟩
    · rintro ⟨hin, hout⟩
      refine ⟨?_, ?_⟩
      · rw [hkind, ne_eq, h.incoming n hn]
        exact hin
      · rw [hkind, ne_eq, h.outgoing n hn]
        exact hout
  constructor
  · exact fun hs n hn => (hold n hn).1 (hs n (Nat.lt_of_lt_of_le hn h.refines.size))
  · intro hs n hn
    rcases Nat.lt_or_ge (index n) g.nodes.size with hlt | hge
    · exact (hold n hlt).2 (hs n hlt)
    · obtain ⟨hin, hout⟩ := h.fresh n hge hn
      exact ⟨fun _ => hin, fun _ => hout⟩

/-- What `normalize` gives lacks nothing if and only if the graph lacked nothing before. -/
theorem Attached.furnished_iff (h : Attached g g') : g'.Furnished ↔ g.Furnished := by
  have hr := h.refines
  have hid : ∀ n, (g.node n).kind.isSubprocess → (g'.node n).id = (g.node n).id := fun n hn =>
    (hr.id_eq (lt_of_isSubprocess hn)).1
  have hpassable : ∀ n, (g.node n).kind.isSubprocess → (g'.Passable n ↔ g.Passable n) := by
    intro n hn
    constructor
    · rintro ⟨hstart, hend⟩
      rw [hid n hn] at hstart hend
      exact ⟨hr.startsOf_ne_nil_iff.1 hstart, hr.normalEndsOf_ne_nil_iff.1 hend⟩
    · rintro ⟨hstart, hend⟩
      refine ⟨?_, ?_⟩
      · rw [hid n hn]
        exact hr.startsOf_ne_nil_iff.2 hstart
      · rw [hid n hn]
        exact hr.normalEndsOf_ne_nil_iff.2 hend
  have hevents : ∀ id m, m ∈ g'.boundaryEventsOf id ↔ m ∈ g.boundaryEventsOf id := by
    intro id m
    rw [mem_boundaryEventsOf, mem_boundaryEventsOf]
    refine hr.node_iff (P := fun x => ∃ trigger, x.kind = .boundaryEvent trigger id) (fun _ => Iff.rfl)
      fun x d hd ⟨_, hx⟩ => ?_
    rw [hd] at hx
    cases hx
  -- events and the ends that raise them are no gateways, so `normalize` leaves them alone
  have hraised : ∀ n, (g.node n).kind.isSubprocess → ∀ m ∈ g.boundaryEventsOf (g.node n).id,
      (g'.RaisedIn (g'.node n).id m ↔ g.RaisedIn (g.node n).id m) := by
    intro n hn m hm
    have hlt := (mem_boundaryEventsOf.1 hm).1
    have hname : (g'.node m).eventName = (g.node m).eventName := congrArg (·.eventName) (hr.node m hlt)
    unfold RaisedIn
    simp only [hid n hn, (hr.id_eq hlt).2.2, hr.raisingEnds_ne_nil_iff hname]
  constructor
  · rintro ⟨hs, hp, he⟩
    refine ⟨h.served_iff.1 hs, fun n hn => ?_, fun n hn m hm => ?_⟩
    · exact (hpassable n hn).1 (hp n ((hr.isSubprocess_iff n).2 hn))
    · refine (hraised n hn m hm).1 (he n ((hr.isSubprocess_iff n).2 hn) m ?_)
      rwa [hid n hn, hevents]
  · rintro ⟨hs, hp, he⟩
    refine ⟨h.served_iff.2 hs, fun n hn => ?_, fun n hn m hm => ?_⟩
    · have hn := (hr.isSubprocess_iff n).1 hn
      exact (hpassable n hn).2 (hp n hn)
    · have hn := (hr.isSubprocess_iff n).1 hn
      rw [hid n hn, hevents] at hm
      exact (hraised n hn m hm).2 (he n hn m hm)

end ProcessGraph

end ProcessNet
