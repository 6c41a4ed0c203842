/-
Nodes and flows of a process graph.
-/
import ProcessNet.Identifier
import ProcessNet.Text.Escape

namespace ProcessNet

/-- What a start, end or intermediate event is about. -/
inductive EventTrigger where
  | normal
  | message
  | error
  | cancel
  | terminate
deriving DecidableEq, Repr, Inhabited

namespace EventTrigger

def all : List EventTrigger := [.normal, .message, .error, .cancel, .terminate]

def name : EventTrigger → String
  | .normal => "Normal"
  | .message => "Message"
  | .error => "Error"
  | .cancel => "Cancel"
  | .terminate => "Terminate"

end EventTrigger

/-- What an event on the boundary of an activity is about. -/
inductive BoundaryTrigger where
  | message
  | error
  | cancel
deriving DecidableEq, Repr, Inhabited

namespace BoundaryTrigger

def all : List BoundaryTrigger := [.message, .error, .cancel]

def name : BoundaryTrigger → String
  | .message => "Message"
  | .error => "Error"
  | .cancel => "Cancel"

/-- Errors and cancellations are raised inside the subprocess; messages come from outside. -/
def isInternal : BoundaryTrigger → Bool
  | .message => false
  | .error | .cancel => true

/-- The trigger of the end events that raise the boundary event. -/
def endTrigger : BoundaryTrigger → EventTrigger
  | .message => .message
  | .error => .error
  | .cancel => .cancel

end BoundaryTrigger

/-- How a gateway joins and splits the flow. -/
inductive GatewayKind where
  /-- All incoming and all outgoing branches. -/
  | parallel
  /-- One incoming and one outgoing branch. -/
  | exclusive
  /-- Any number of branches. -/
  | inclusive
deriving DecidableEq, Repr, Inhabited

namespace GatewayKind

def all : List GatewayKind := [.parallel, .exclusive, .inclusive]

def name : GatewayKind → String
  | .parallel => "Parallel"
  | .exclusive => "Exclusive"
  | .inclusive => "Inclusive"

end GatewayKind

/-- Whether a gateway is meant to split or to join. -/
inductive GatewayDirection where
  | unspecified
  | diverging
  | converging
deriving DecidableEq, Repr, Inhabited

namespace GatewayDirection

def all : List GatewayDirection := [.unspecified, .diverging, .converging]

def name : GatewayDirection → String
  | .unspecified => "Unspecified"
  | .diverging => "Diverging"
  | .converging => "Converging"

end GatewayDirection

/-- The kinds of nodes. -/
inductive NodeKind where
  | task
  /-- A subprocess; `depth` is one for a subprocess of the root process and grows with nesting. -/
  | subprocess (depth : Nat)
  | startEvent (trigger : EventTrigger)
  | endEvent (trigger : EventTrigger)
  | catchEvent (trigger : EventTrigger)
  | throwEvent (trigger : EventTrigger)
  /-- An event on the boundary of the task or subprocess with the id `activity`. -/
  | boundaryEvent (trigger : BoundaryTrigger) (activity : String)
  | gateway (kind : GatewayKind) (direction : GatewayDirection)
deriving DecidableEq, Repr, Inhabited

namespace NodeKind

def isGateway : NodeKind → Bool
  | .gateway _ _ => true
  | _ => false

def isSubprocess : NodeKind → Bool
  | .subprocess _ => true
  | _ => false

/-- Tasks and subprocesses. -/
def isActivity : NodeKind → Bool
  | .task | .subprocess _ => true
  | _ => false

def isStart : NodeKind → Bool
  | .startEvent _ => true
  | _ => false

def isEnd : NodeKind → Bool
  | .endEvent _ => true
  | _ => false

def depth? : NodeKind → Option Nat
  | .subprocess d => some d
  | _ => none

/-- The kind for reading. -/
def text : NodeKind → String
  | .task => "Task"
  | .subprocess d => Text.record "SubProcess" [("depth", toString d)]
  | .startEvent t => Text.applied "StartEvent" [t.name]
  | .endEvent t => Text.applied "EndEvent" [t.name]
  | .catchEvent t => Text.applied "IntermediateCatchEvent" [t.name]
  | .throwEvent t => Text.applied "IntermediateThrowEvent" [t.name]
  | .boundaryEvent t a =>
    Text.record "BoundaryEvent" [("trigger", t.name), ("activity", Text.literal a)]
  | .gateway k d => Text.record "Gateway" [("kind", k.name), ("direction", d.name)]

end NodeKind

/-- A node with the flows that enter and leave it. -/
structure Node where
  id : String
  name : Option String
  kind : NodeKind
  incoming : List FlowId := []
  outgoing : List FlowId := []
  /-- The id of the root process, or of the subprocess that holds the node. -/
  process : String
deriving DecidableEq, Repr, Inhabited

namespace Node

/-- The name to show; an empty name counts as none. -/
def displayName? (n : Node) : Option String := n.name.filter (· ≠ "")

/-- The name that pairs boundary events with the end events that raise them. -/
def eventName (n : Node) : String := n.name.getD ""

/-- The id and the event name for reading. -/
def text (n : Node) : String := n.id ++ "@" ++ n.eventName

end Node

/-- The kinds of flows. -/
inductive FlowKind where
  | sequence
  | message
deriving DecidableEq, Repr, Inhabited

namespace FlowKind

def all : List FlowKind := [.sequence, .message]

def name : FlowKind → String
  | .sequence => "Sequence"
  | .message => "Message"

end FlowKind

/-- A flow from one node to another. -/
structure Flow where
  id : String
  name : Option String
  kind : FlowKind
  source : NodeId
  target : NodeId
  process : String
deriving DecidableEq, Repr, Inhabited

end ProcessNet
