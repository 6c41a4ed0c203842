/-
The token game of a process graph: tokens lie on flows. The root process starts with a token behind each
of its start events, and it is finished when one token is left, in front of a normal end event of it.
-/
import ProcessNet.Proofs.Game.Basic
import ProcessNet.Proofs.Process.Query

namespace ProcessNet

open Identifier

/-- Tasks and intermediate events. -/
def NodeKind.isStep : NodeKind → Bool
  | .task | .catchEvent _ | .throwEvent _ => true
  | _ => false

namespace ProcessGraph

variable (g : ProcessGraph)

/-- The flows are one outgoing flow of each of the nodes. -/
def Behind (nodes : List NodeId) (flows : Multiset FlowId) : Prop :=
  Multiset.Rel (fun n f => f ∈ (g.node n).outgoing) nodes flows

/-- The moves that belong to a node: the flows that a token is taken from, those that one is put on, and
what is shown. With `showEvents` the events on tasks show their names. -/
inductive Moves (showEvents : Bool) (n : NodeId) :
    Multiset FlowId → Multiset FlowId → Option String → Prop
  /-- A task or an intermediate event takes a token from any incoming flow and puts one on any outgoing
  flow. -/
  | step {f k : FlowId} : (g.node n).kind.isStep → f ∈ (g.node n).incoming →
    k ∈ (g.node n).outgoing → Moves showEvents n {f} {k} (g.node n).displayName?
  /-- An event on a task takes the token from the task and puts one on a flow of its own. -/
  | interrupt {event : NodeId} {trigger : BoundaryTrigger} {f k : FlowId} :
    (g.node n).kind = .task → (g.node event).kind = .boundaryEvent trigger (g.node n).id →
    f ∈ (g.node n).incoming → k ∈ (g.node event).outgoing →
    Moves showEvents n {f} {k} (if showEvents then (g.node event).displayName? else none)
  /-- A parallel gateway takes a token from every incoming flow and puts one on every outgoing flow. -/
  | synchronize {direction : GatewayDirection} : (g.node n).kind = .gateway .parallel direction →
    Moves showEvents n (g.node n).incoming (g.node n).outgoing none
  /-- An exclusive gateway takes a token from any incoming flow and puts one on any outgoing flow. -/
  | choose {direction : GatewayDirection} {f k : FlowId} :
    (g.node n).kind = .gateway .exclusive direction → f ∈ (g.node n).incoming →
    k ∈ (g.node n).outgoing → Moves showEvents n {f} {k} none
  /-- A subprocess is entered: a token from any incoming flow becomes one behind each of its starts. -/
  | enter {f : FlowId} {starts : Multiset FlowId} : (g.node n).kind.isSubprocess →
    f ∈ (g.node n).incoming → g.Behind (g.startsOf (g.node n).id) starts →
    Moves showEvents n {f} starts none
  /-- A subprocess is left: a token in front of one of its normal ends goes to any outgoing flow. -/
  | leave {e : NodeId} {f k : FlowId} : (g.node n).kind.isSubprocess →
    (g.node e).kind = .endEvent .normal → (g.node e).process = (g.node n).id →
    f ∈ (g.node e).incoming → k ∈ (g.node n).outgoing → Moves showEvents n {f} {k} none

/-- The flow leads into a normal end event of the root process. -/
def EntersEnd (f : FlowId) : Prop :=
  ∃ n, (g.node n).kind = .endEvent .normal ∧ (g.node n).process = g.processId ∧
    f ∈ (g.node n).incoming

/-- Tokens come into the normal ends of the root process one by one: not straight from a start event, and
not several at once from a parallel gateway. -/
structure EndsApart (g : ProcessGraph) : Prop where
  starts : ∀ n, (g.node n).kind.isStart → ∀ f ∈ (g.node n).outgoing, ¬ g.EntersEnd f
  forks : ∀ n direction, (g.node n).kind = .gateway .parallel direction →
    ∀ f ∈ (g.node n).outgoing, ∀ k ∈ (g.node n).outgoing, g.EntersEnd f → g.EntersEnd k → f = k

instance (f : FlowId) : Decidable (g.EntersEnd f) :=
  decidable_of_iff (¬ ∀ x ∈ g.nodes.items,
      ¬ (x.kind = .endEvent .normal ∧ x.process = g.processId ∧ f ∈ x.incoming)) <| by
    rw [← forall_node_iff (by rintro ⟨⟨⟩, _⟩)]
    exact not_forall_not

instance : Decidable g.EndsApart :=
  decidable_of_iff (∀ x ∈ g.nodes.items, (x.kind.isStart → ∀ f ∈ x.outgoing, ¬ g.EntersEnd f) ∧
      ∀ direction ∈ GatewayDirection.all, x.kind = .gateway .parallel direction →
        ∀ f ∈ x.outgoing, ∀ k ∈ x.outgoing, g.EntersEnd f → g.EntersEnd k → f = k) <| by
    rw [← forall_node_iff ⟨nofun, nofun⟩]
    refine ⟨fun h => ⟨fun n => (h n).1, fun n direction => (h n).2 direction ?_⟩,
      fun h n => ⟨h.starts n, fun direction _ => h.forks n direction⟩⟩
    cases direction <;> decide

/-- The token game of the graph. -/
def game (showEvents : Bool) : Game FlowId where
  move ins outs label := ∃ n, g.Moves showEvents n ins outs label
  start := g.Behind g.rootStarts
  finish m := ∃ f, g.EntersEnd f ∧ m = {f}

variable {g} {showEvents : Bool} {m : NodeId} {i o : Multiset FlowId} {label : Option String}

/-- Only nodes that are there have moves. -/
theorem Moves.lt (h : g.Moves showEvents m i o label) : index m < g.nodes.size := by
  refine Nat.lt_of_not_le fun hle => ?_
  have hm := node_eq_default hle
  have hnone : ∀ f, f ∉ (g.node m).incoming := by
    rw [hm]
    exact fun _ => List.not_mem_nil
  have htask : (g.node m).kind = .task := by
    rw [hm]
    rfl
  cases h with
  | step _ hf | interrupt _ _ hf | choose _ hf | enter _ hf => exact hnone _ hf
  | synchronize hgateway =>
    rw [htask] at hgateway
    cases hgateway
  | leave hsub =>
    rw [htask] at hsub
    cases hsub

end ProcessGraph

end ProcessNet
