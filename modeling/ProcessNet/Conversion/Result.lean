/-
The conversion of process graphs to accepting nets. Graphs are first brought into gateway form;
then flows become places, nodes become transitions, and subprocesses are joined to their
surroundings from the inside out.
-/
import ProcessNet.Conversion.Termination
import ProcessNet.Net.Consistency

namespace ProcessNet

namespace Construction

/-- The whole construction for a graph in gateway form. -/
def construct (g : ProcessGraph) (showEvents : Bool) : ConstructionM Unit := do
  addFlowPlaces g
  addNodes g
  let subprocesses ← joinSubprocesses g
  addTaskBoundaries g showEvents
  subprocesses.forM fun s => do
    addSubprocessBoundaries g showEvents s
    terminateSubprocess g s
    absorb s
  terminateRoot g

/-- The construction before its first step. -/
def start (g : ProcessGraph) : Construction := { net := { name := g.name } }

def toAccepting (c : Construction) : AcceptingNet := ⟨c.net, c.initial, c.final⟩

end Construction

namespace ProcessGraph

/-- The construction for the graph as it stands. On failure the answer holds the net that was
built until then. -/
def construct (g : ProcessGraph) (showEvents : Bool) :
    Except (ConversionError × Net) AcceptingNet :=
  match Construction.construct g showEvents (Construction.start g) with
  | .ok () c => .ok c.toAccepting
  | .error e c => .error (e, c.net)

/-- The first node whose kind has no counterpart in nets. -/
def firstUnsupported? (g : ProcessGraph) : Option NodeId :=
  g.sortedNodes.find? fun n =>
    match (g.node n).kind with
    | .gateway .inclusive _ => true
    | _ => false

/-- The accepting net of a graph. With `showEvents` the transitions of boundary events are labelled
with the names of the events; otherwise they are silent. -/
def toAcceptingNet (g : ProcessGraph) (showEvents : Bool) : Except ConversionError AcceptingNet :=
  match g.firstUnsupported? with
  | some n => .error (.unsupported (g.node n).id)
  | none => do
    let normal ← g.normalize.mapError .ofGatewayForm
    let result ← (normal.construct showEvents).mapError (·.1)
    result.net.checkConsistency.mapError .net
    return result

end ProcessGraph

end ProcessNet
