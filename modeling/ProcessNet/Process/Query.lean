/-
Questions about the structure of a process graph. All lists come in the order of the ids, so the
answers do not depend on the order in which nodes and flows were declared.
-/
import ProcessNet.Process.Graph

namespace ProcessNet.ProcessGraph

variable (g : ProcessGraph)

/-- The nodes in the order of their ids. -/
def sortedNodes : List NodeId :=
  (g.nodes.entries.mergeSort fun a b => decide (a.2.id ≤ b.2.id)).map (·.1)

/-- The flows in the order of their ids. -/
def sortedFlows : List FlowId :=
  (g.flows.entries.mergeSort fun a b => decide (a.2.id ≤ b.2.id)).map (·.1)

/-- The nodes with a property, in the order of their ids. -/
def select (keep : Node → Bool) : List NodeId := g.sortedNodes.filter fun n => keep (g.node n)

def subprocesses : List NodeId := g.select (·.kind.isSubprocess)

/-- The depth of a subprocess, and none for other nodes. -/
def depth (n : NodeId) : Nat := (g.node n).kind.depth?.getD 0

/-- The subprocesses, the innermost first; those of one depth in the order of their ids. -/
def subprocessesInnermostFirst : List NodeId :=
  g.subprocesses.mergeSort fun a b => decide (g.depth b ≤ g.depth a)

/-- The events on the boundary of an activity. -/
def boundaryEventsOf (activity : String) : List NodeId :=
  g.select fun n =>
    match n.kind with
    | .boundaryEvent _ a => a = activity
    | _ => false

/-- The terminate end events directly in a process. -/
def terminationsOf (process : String) : List NodeId :=
  g.select fun n => n.process = process && n.kind = .endEvent .terminate

/-- The start events directly in a process. -/
def startsOf (process : String) : List NodeId :=
  g.select fun n => n.process = process && n.kind.isStart

/-- The end events directly in a process. -/
def endsOf (process : String) : List NodeId :=
  g.select fun n => n.process = process && n.kind.isEnd

/-- The start events of the root process. -/
def rootStarts : List NodeId := g.startsOf g.processId

/-- The processes from `process` outwards, at most `fuel` steps up. -/
def chainFrom : Nat → String → List String
  | 0, process => [process]
  | fuel + 1, process =>
    if g.isRoot process then [process]
    else
      match g.nodeById? process with
      | some n => process :: chainFrom fuel (g.node n).process
      | none => [process]

/-- The processes around a node, the innermost first and the root process last. -/
def processChain (n : NodeId) : List String := g.chainFrom g.nodeCount (g.node n).process

/-- The nodes directly in a process, or at any level within it. -/
def nodesInside (process : String) (deep : Bool) : List NodeId :=
  g.sortedNodes.filter fun n =>
    if deep then (g.processChain n).contains process else (g.node n).process = process

end ProcessNet.ProcessGraph
