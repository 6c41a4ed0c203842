/-
The construction of a net from a process graph: the state that grows, the ways it can fail, and
the single additions that all parts of the construction are made of. A construction that fails
leaves behind the net that was built until then.
-/
import ProcessNet.Net.Adjacent
import ProcessNet.Net.Accepting
import ProcessNet.Process.GatewayForm

namespace ProcessNet

/-- What a node lacks so that it cannot be converted. -/
inductive Deficiency where
  | noIncoming
  | noOutgoing
  | gatewayWithoutIncoming
  | gatewayWithoutOutgoing
  | noStart
  | noNormalEnd
  /-- No end event inside the subprocess raises the boundary event. -/
  | notRaised (trigger : BoundaryTrigger) (event subprocess : String)
  /-- The root process terminates but has no normal end. -/
  | rootWithoutNormalEnd
  /-- The id of a gateway that the node needs is taken. -/
  | gatewayIdTaken (gateway : String)
deriving DecidableEq, Repr

def Deficiency.message : Deficiency → String
  | .noIncoming => "has no incoming flow"
  | .noOutgoing => "has no outgoing flow"
  | .gatewayWithoutIncoming => "gateway has no incoming flow"
  | .gatewayWithoutOutgoing => "gateway has no outgoing flow"
  | .noStart => "subprocess has no start event"
  | .noNormalEnd => "subprocess has no normal end event"
  | .notRaised t e s =>
    "no " ++ t.name ++ " end event named `" ++ e ++ "` inside `" ++ s ++ "`"
  | .rootWithoutNormalEnd => "root process has no normal end event"
  | .gatewayIdTaken id => "generated gateway id `" ++ id ++ "` is already taken"

/-- Why a graph was not converted. -/
inductive ConversionError where
  /-- The node is of a kind that has no counterpart in nets. -/
  | unsupported (node : String)
  | deficient (node : String) (deficiency : Deficiency)
  | graph (error : GraphError)
  | net (error : NetError)
deriving DecidableEq, Repr

namespace ConversionError

def message : ConversionError → String
  | .unsupported n => "`" ++ n ++ "` uses a construct the converter does not support"
  | .deficient n d => "`" ++ n ++ "`: " ++ d.message
  | .graph e => e.message
  | .net e => e.message

def ofGatewayForm : GatewayFormError → ConversionError
  | .gatewayIdTaken node gateway => .deficient node (.gatewayIdTaken gateway)
  | .graph e => .graph e

end ConversionError

/-- A net under construction. -/
structure Construction where
  net : Net
  initial : Marking := ∅
  final : Marking := ∅
  /-- The place of each flow. -/
  flowPlaces : List (FlowId × PlaceId) := []
  /-- The place that all flows into normal ends of the root process share. -/
  rootSink : Option PlaceId := none
deriving Repr

/-- Steps of a construction. -/
abbrev ConstructionM := EStateM ConversionError Construction

namespace Construction

/-- Puts the parts of a generated name together. -/
def joinName (parts : List String) : String := "@@@".intercalate parts

/-- Changes the net, or fails and leaves it. -/
def onNet {α : Type} (f : Net → Except NetError (Net × α)) : ConstructionM α := do
  match f (← get).net with
  | .ok (net, x) =>
    modify ({ · with net })
    return x
  | .error e => throw (.net e)

def addPlace (p : Place) : ConstructionM PlaceId := onNet (·.addPlace p)

def addTransition (t : Transition) : ConstructionM TransitionId := onNet (·.addTransition t)

/-- Adds an arc, unless it is there already. -/
def addArc (a : Arc) : ConstructionM Unit := do
  let _ ← onNet (·.addArc a)

/-- Adds a transition that takes from `inputs` and puts into `outputs`. -/
def addStep (t : Transition) (inputs outputs : List PlaceId) : ConstructionM TransitionId := do
  let id ← addTransition t
  inputs.forM fun p => addArc (.input p id)
  outputs.forM fun p => addArc (.output id p)
  return id

/-- Adds a silent step. -/
def addSilentStep (name process : String) (inputs outputs : List PlaceId) :
    ConstructionM TransitionId :=
  addStep { name, label := none, process } inputs outputs

/-- Fails because a node lacks something. -/
def lacks {α : Type} (g : ProcessGraph) (n : NodeId) (d : Deficiency) : ConstructionM α :=
  throw (.deficient (g.node n).id d)

/-- The place of a flow. -/
def flowPlace (f : FlowId) : ConstructionM PlaceId := do
  match (← get).flowPlaces.lookup f with
  | some p => return p
  | none => throw (.net (.fault .missingSlot))

/-- The place of the first flow into a node. -/
def inPlace (g : ProcessGraph) (n : NodeId) : ConstructionM PlaceId :=
  match (g.node n).incoming with
  | f :: _ => flowPlace f
  | [] => lacks g n .noIncoming

/-- The place of the first flow out of a node. -/
def outPlace (g : ProcessGraph) (n : NodeId) : ConstructionM PlaceId :=
  match (g.node n).outgoing with
  | f :: _ => flowPlace f
  | [] => lacks g n .noOutgoing

/-- The places of flows, in the order of the flows' ids. -/
def sortedPlaces (g : ProcessGraph) (flows : List FlowId) : ConstructionM (List PlaceId) :=
  (flows.mergeSort fun a b => decide ((g.flow a).id ≤ (g.flow b).id)).mapM flowPlace

end Construction

end ProcessNet
