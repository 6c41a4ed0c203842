/-
Transitions of single nodes. Tasks and intermediate events become labelled transitions, gateways
silent ones; start and end events of the root process mark their places.
-/
import ProcessNet.Conversion.Flows

namespace ProcessNet.Construction

/-- The name of the transition of a node. -/
def stepName (id process : String) : String := joinName ["t", id, process]

/-- A transition from the place in front of a node to the place behind it. -/
def addNodeStep (g : ProcessGraph) (n : NodeId) (label : Option String) : ConstructionM Unit := do
  let input ← inPlace g n
  let output ← outPlace g n
  let node := g.node n
  let _ ← addStep { name := stepName node.id node.process, label, process := node.process }
    [input] [output]

/-- A silent transition for each pair of an incoming and an outgoing branch. -/
def addChoices (node : Node) (inputs outputs : List PlaceId) : ConstructionM Unit :=
  let branches := inputs.flatMap fun input => outputs.map fun output => (input, output)
  branches.zipIdx.forM fun ((input, output), k) => do
    let _ ← addSilentStep (stepName s!"{node.id}#{k}" node.process) node.process [input] [output]

/-- The transitions of a gateway: one for all branches of a parallel gateway, one for each pair of
branches of an exclusive gateway. -/
def addGateway (g : ProcessGraph) (n : NodeId) (kind : GatewayKind)
    (direction : GatewayDirection) : ConstructionM Unit := do
  let node := g.node n
  if direction = .unspecified ∧ node.incoming.length = 1 ∧ node.outgoing.length = 1 then
    addNodeStep g n none
  else if node.incoming.isEmpty then lacks g n .gatewayWithoutIncoming
  else if node.outgoing.isEmpty then lacks g n .gatewayWithoutOutgoing
  else
    let inputs ← sortedPlaces g node.incoming
    let outputs ← sortedPlaces g node.outgoing
    match kind with
    | .parallel =>
      let _ ← addSilentStep (stepName node.id node.process) node.process inputs outputs
    | .exclusive => addChoices node inputs outputs
    | .inclusive => throw (.unsupported node.id)

/-- Adds one token to the place where a root process starts. -/
def markStart (p : PlaceId) : ConstructionM Unit := do
  let c ← get
  match c.initial.add p 1 with
  | .ok initial => set { c with initial }
  | .error f => throw (.net (.fault f))

/-- Gives one node its transitions or its tokens. -/
def addNode (g : ProcessGraph) (n : NodeId) : ConstructionM Unit := do
  let node := g.node n
  match node.kind with
  | .startEvent _ =>
    let p ← outPlace g n
    if g.isRoot node.process then markStart p
  | .endEvent trigger =>
    let p ← inPlace g n
    if trigger = .normal ∧ g.isRoot node.process then
      modify fun c => { c with final := c.final.set p 1 }
  | .task | .catchEvent _ | .throwEvent _ => addNodeStep g n node.displayName?
  | .gateway kind direction => addGateway g n kind direction
  | .subprocess _ | .boundaryEvent _ _ => pure ()

/-- Gives every node its transitions or its tokens, in the order of the ids. -/
def addNodes (g : ProcessGraph) : ConstructionM Unit := g.sortedNodes.forM (addNode g)

end ProcessNet.Construction
