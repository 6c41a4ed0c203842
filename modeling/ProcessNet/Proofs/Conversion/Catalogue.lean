/-
The catalogue of a process in gateway form: the steps that its net has, told by the graph alone. Each step
belongs to a node, has a name and perhaps a label, and takes from the places of some flows and puts into
the places of others. The steps come in the order in which they are constructed.
-/
import ProcessNet.Proofs.Conversion.Interruption

namespace ProcessNet

/-- What is left of a call of `addStep`: the flows whose places the transition takes from and puts into. -/
structure Step where
  owner : NodeId
  name : String
  label : Option String := none
  takes : List FlowId
  gives : List FlowId

namespace ProcessGraph

open Construction Identifier

variable (g : ProcessGraph)

/-! ## Single nodes -/

/-- The step of `addNodeStep`. -/
def passStep (n : NodeId) (label : Option String) : Step where
  owner := n
  name := stepName (g.node n).id (g.node n).process
  label := label
  takes := (g.node n).incoming
  gives := (g.node n).outgoing

/-- Flows in the order of their ids, as `sortedPlaces` takes them. -/
def inOrder (flows : List FlowId) : List FlowId :=
  flows.mergeSort fun a b => decide ((g.flow a).id ≤ (g.flow b).id)

/-- The pairs of an incoming and an outgoing branch of a gateway, in the order of `addChoices`. -/
def branches (n : NodeId) : List (FlowId × FlowId) :=
  (g.inOrder (g.node n).incoming).flatMap fun f => (g.inOrder (g.node n).outgoing).map fun k => (f, k)

/-- The steps of `addChoices` for an exclusive gateway, which bear the numbers of their branches. -/
def choiceSteps (n : NodeId) : List Step :=
  (g.branches n).zipIdx.map fun e =>
    { owner := n, name := stepName s!"{(g.node n).id}#{e.2}" (g.node n).process, takes := [e.1.1],
      gives := [e.1.2] }

/-- An exclusive gateway with a single branch that is not said to split or to join. -/
def IsPlain (n : NodeId) (direction : GatewayDirection) : Prop :=
  direction = .unspecified ∧ (g.node n).incoming.length = 1 ∧ (g.node n).outgoing.length = 1

instance (n : NodeId) (direction : GatewayDirection) : Decidable (g.IsPlain n direction) :=
  inferInstanceAs (Decidable (_ ∧ _))

/-- The steps of `addNode`: those of tasks, intermediate events and gateways. -/
def nodeSteps (n : NodeId) : List Step :=
  match (g.node n).kind with
  | .task | .catchEvent _ | .throwEvent _ => [g.passStep n (g.node n).displayName?]
  | .gateway .parallel _ => [g.passStep n none]
  | .gateway .exclusive direction => if g.IsPlain n direction then [g.passStep n none] else g.choiceSteps n
  | _ => []

/-! ## Subprocesses -/

/-- The step of `joinSubprocess` from the front of a subprocess to its starts. -/
def entryStep (n : NodeId) : Step where
  owner := n
  name := entryName (g.node n).id (g.node n).process
  takes := (g.node n).incoming
  gives := (g.startsOf (g.node n).id).flatMap fun m => (g.node m).outgoing

/-- The steps of `joinSubprocess` from the normal ends of a subprocess to the place behind it. -/
def exitSteps (n : NodeId) : List Step :=
  (g.normalEndsOf (g.node n).id).zipIdx.map fun e =>
    { owner := n, name := exitName (g.node n).id (g.node n).process (g.normalEndsOf (g.node n).id).length e.2,
      takes := (g.node e.1).incoming, gives := (g.node n).outgoing }

def joinSteps (n : NodeId) : List Step := g.entryStep n :: g.exitSteps n

/-! ## Boundary events -/

/-- The step of an event on an activity, which takes from the given flows. -/
def boundaryStep (showEvents : Bool) (activity event : NodeId) (takes : List FlowId) : Step where
  owner := event
  name := boundaryName (g.node event).id (g.node activity).process
  label := boundaryLabel showEvents (g.node event)
  takes := takes
  gives := (g.node event).outgoing

/-- The steps of `addTaskBoundary` for the events on a task. -/
def taskEventSteps (showEvents : Bool) (task : NodeId) : List Step :=
  (g.boundaryEventsOf (g.node task).id).map fun m =>
    g.boundaryStep showEvents task m (g.node task).incoming

/-- The ends directly in a process that raise an event. Messages are raised by none. -/
def endsRaising (process : String) (event : Node) : List NodeId :=
  match event.kind with
  | .boundaryEvent trigger _ => if trigger.isInternal then raisingEnds g process event trigger else []
  | _ => []

/-- The flows into the ends that raise an event. -/
def raisingFlows (process : String) (event : Node) : List FlowId :=
  (g.endsRaising process event).flatMap fun m => (g.node m).incoming

/-- The steps of `addSubprocessBoundary` for the events on a subprocess. Messages come from outside, so
they take from no flow. -/
def eventSteps (showEvents : Bool) (n : NodeId) : List Step :=
  (g.boundaryEventsOf (g.node n).id).map fun m =>
    g.boundaryStep showEvents n m (g.raisingFlows (g.node n).id (g.node m))

/-! ## Terminate ends -/

/-- The steps of `terminateSubprocess` from the terminate ends of a subprocess to the place behind it. -/
def terminationSteps (n : NodeId) : List Step :=
  (g.terminationsOf (g.node n).id).map fun m =>
    { owner := m, name := terminationName [(g.node m).id, (g.node n).id, (g.node n).process],
      takes := (g.node m).incoming, gives := (g.node n).outgoing }

/-- The flows that share the sink, in the order of their ids. -/
def rootEndFlows : List FlowId := g.sortedFlows.filter fun f => entersRootEnd g (g.flow f)

/-- The steps of `terminateRoot` from the terminate ends of the root process to its sink. -/
def rootTerminationSteps : List Step :=
  (g.terminationsOf g.processId).map fun m =>
    { owner := m, name := terminationName [(g.node m).id, g.processId], takes := (g.node m).incoming,
      gives := g.rootEndFlows }

/-! ## The whole -/

/-- What `finish` adds when it is the turn of a subprocess. -/
def finishSteps (showEvents : Bool) (n : NodeId) : List Step :=
  g.eventSteps showEvents n ++ g.terminationSteps n

/-- All steps of `construct`. -/
def steps (showEvents : Bool) : List Step :=
  g.sortedNodes.flatMap g.nodeSteps ++ g.subprocessesInnermostFirst.flatMap g.joinSteps ++
    (g.select (·.kind = .task)).flatMap (g.taskEventSteps showEvents) ++
    g.subprocessesInnermostFirst.flatMap (g.finishSteps showEvents) ++ g.rootTerminationSteps

end ProcessGraph

end ProcessNet
