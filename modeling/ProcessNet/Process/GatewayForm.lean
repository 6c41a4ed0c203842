/-
Gateway form: every node but a gateway has at most one incoming and at most one outgoing flow.
A node with more gets an exclusive gateway of its own, in front of it or behind it, which takes
over all those flows and is joined to the node by one flow.
-/
import ProcessNet.Process.Query

namespace ProcessNet

/-- Why a graph could not be brought into gateway form. -/
inductive GatewayFormError where
  /-- The id of the gateway that a node needs belongs to another node. -/
  | gatewayIdTaken (node gateway : String)
  | graph (error : GraphError)
deriving DecidableEq, Repr

namespace ProcessGraph

/-- Every node but a gateway has at most one flow on each side. -/
def InGatewayForm (g : ProcessGraph) : Prop :=
  ∀ n ∈ g.nodes.items, n.kind.isGateway = false → n.incoming.length ≤ 1 ∧ n.outgoing.length ≤ 1

/-- The id of the gateway in front of a node. -/
def joinId (id : String) : String := "XOR-input-" ++ id

/-- The id of the gateway behind a node. -/
def splitId (id : String) : String := "XOR-output-" ++ id

/-- The id of the flow between a node and a gateway of its own. -/
def connectorId (gateway : String) : String := gateway ++ "-flow"

/-- Adds an exclusive gateway for a node, in the process of that node. -/
def insertGateway (g : ProcessGraph) (owner : Node) (id : String) (direction : GatewayDirection) :
    Except GatewayFormError (ProcessGraph × NodeId) :=
  if (g.nodeById? id).isSome then .error (.gatewayIdTaken owner.id id)
  else
    (g.insertNode {
      id, name := some id, kind := .gateway .exclusive direction
      process := owner.process }).mapError .graph

/-- Adds the flow between a node and a gateway of its own. -/
def connect (g : ProcessGraph) (gateway process : String) (source target : NodeId) :
    Except GatewayFormError ProcessGraph :=
  (g.insertFlow {
    id := connectorId gateway, name := none, kind := .sequence, source, target
    process }).mapError .graph

/-- Leads all flows into a node through a gateway in front of it. -/
def joinIncoming (g : ProcessGraph) (n : NodeId) : Except GatewayFormError ProcessGraph := do
  let owner := g.node n
  let id := joinId owner.id
  let (g, gateway) ← g.insertGateway owner id .converging
  let g := (g.node n).incoming.foldl (fun g f => g.redirectTarget f gateway) g
  g.connect id owner.process gateway n

/-- Leads all flows out of a node through a gateway behind it. -/
def splitOutgoing (g : ProcessGraph) (n : NodeId) : Except GatewayFormError ProcessGraph := do
  let owner := g.node n
  let id := splitId owner.id
  let (g, gateway) ← g.insertGateway owner id .diverging
  let g := (g.node n).outgoing.foldl (fun g f => g.redirectSource f gateway) g
  g.connect id owner.process n gateway

/-- Gives one node the gateways that it needs. -/
def normalizeNode (g : ProcessGraph) (n : NodeId) : Except GatewayFormError ProcessGraph := do
  if (g.node n).kind.isGateway then return g
  let g ← if 1 < (g.node n).incoming.length then g.joinIncoming n else pure g
  if 1 < (g.node n).outgoing.length then g.splitOutgoing n else return g

/-- Brings the graph into gateway form, node by node in the order of the ids. -/
def normalize (g : ProcessGraph) : Except GatewayFormError ProcessGraph :=
  g.sortedNodes.foldlM normalizeNode g

end ProcessGraph

end ProcessNet
