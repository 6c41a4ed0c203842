/-
Process graphs: nodes, flows between them, and subprocesses that hold nodes of their own. Ids are
texts; within the graph nodes and flows are numbered in the order in which they came.
-/
import ProcessNet.Arena
import ProcessNet.Process.Node

namespace ProcessNet

/-- A process with its nodes and flows. -/
structure ProcessGraph where
  processId : String
  name : String
  nodes : Arena NodeId Node := {}
  flows : Arena FlowId Flow := {}
deriving DecidableEq, Repr, Inhabited

/-- Why nodes and flows do not form a process graph. -/
inductive GraphError where
  | duplicateNode (id : String)
  | duplicateFlow (id : String)
  /-- A flow ends at a node that is not declared. -/
  | unknownNode (flow node : String)
  /-- A node or flow belongs to something that is neither the root process nor a subprocess. -/
  | unknownProcess (element process : String)
  | selfContainment (id : String)
  /-- The subprocesses around a subprocess never lead to the root process. -/
  | containmentCycle (id : String)
  | invalidBoundary (event activity : String)
deriving DecidableEq, Repr

def GraphError.message : GraphError → String
  | .duplicateNode id => "node id `" ++ id ++ "` is used more than once"
  | .duplicateFlow id => "flow id `" ++ id ++ "` is used more than once"
  | .unknownNode f n => "flow `" ++ f ++ "` references unknown node `" ++ n ++ "`"
  | .unknownProcess e p =>
    "`" ++ e ++ "` belongs to `" ++ p ++ "`, which is neither the root process nor a subprocess"
  | .selfContainment id => "node `" ++ id ++ "` is declared to contain itself"
  | .containmentCycle id =>
    "subprocess nesting of `" ++ id ++ "` does not lead back to the root process"
  | .invalidBoundary e a =>
    "boundary event `" ++ e ++ "` is attached to `" ++ a ++ "`, which is not a task or subprocess"

namespace ProcessGraph

/-- The node with the given number; a blank node if there is none. -/
def node (g : ProcessGraph) (n : NodeId) : Node := (g.nodes.get? n).getD default

/-- The flow with the given number; a blank flow if there is none. -/
def flow (g : ProcessGraph) (f : FlowId) : Flow := (g.flows.get? f).getD default

/-- The first node with the given id. -/
def nodeById? (g : ProcessGraph) (id : String) : Option NodeId :=
  (g.nodes.items.findIdx? (·.id = id)).map NodeId.mk

/-- The first flow with the given id. -/
def flowById? (g : ProcessGraph) (id : String) : Option FlowId :=
  (g.flows.items.findIdx? (·.id = id)).map FlowId.mk

def nodeCount (g : ProcessGraph) : Nat := g.nodes.size

def flowCount (g : ProcessGraph) : Nat := g.flows.size

def isRoot (g : ProcessGraph) (process : String) : Bool := process = g.processId

/-! ## Growing and bending a graph -/

/-- Notes a flow at the nodes of its two ends. -/
def attach (nodes : Arena NodeId Node) (f : FlowId) (source target : NodeId) :
    Arena NodeId Node :=
  (nodes.modify source fun n => { n with outgoing := n.outgoing ++ [f] }).modify target
    fun n => { n with incoming := n.incoming ++ [f] }

/-- Adds a node whose id is neither that of another node nor that of the process. -/
def insertNode (g : ProcessGraph) (n : Node) : Except GraphError (ProcessGraph × NodeId) :=
  if (g.nodeById? n.id).isSome ∨ n.id = g.processId then .error (.duplicateNode n.id)
  else .ok ({ g with nodes := g.nodes.push n }, g.nodes.next)

/-- Adds a flow whose id no other flow has, and notes it at its ends. -/
def insertFlow (g : ProcessGraph) (f : Flow) : Except GraphError ProcessGraph :=
  if (g.flowById? f.id).isSome then .error (.duplicateFlow f.id)
  else
    .ok { g with flows := g.flows.push f, nodes := attach g.nodes g.flows.next f.source f.target }

/-- Leads a flow into another node. -/
def redirectTarget (g : ProcessGraph) (f : FlowId) (target : NodeId) : ProcessGraph :=
  let leave := fun (n : Node) => { n with incoming := n.incoming.filter (· ≠ f) }
  let enter := fun (n : Node) => { n with incoming := n.incoming ++ [f] }
  { g with
    nodes := (g.nodes.modify (g.flow f).target leave).modify target enter
    flows := g.flows.modify f fun x => { x with target } }

/-- Lets a flow leave another node. -/
def redirectSource (g : ProcessGraph) (f : FlowId) (source : NodeId) : ProcessGraph :=
  let leave := fun (n : Node) => { n with outgoing := n.outgoing.filter (· ≠ f) }
  let enter := fun (n : Node) => { n with outgoing := n.outgoing ++ [f] }
  { g with
    nodes := (g.nodes.modify (g.flow f).source leave).modify source enter
    flows := g.flows.modify f fun x => { x with source } }

end ProcessGraph

end ProcessNet
