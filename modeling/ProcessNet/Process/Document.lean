/-
Process graphs as JSON documents: the declarations of nodes and flows, with explicit processes. A
document is read by declaring the process anew, so it is checked like any other declaration, and
depths are computed and not taken from it.
-/
import ProcessNet.Format.Json.Document
import ProcessNet.Format.Json.Printer
import ProcessNet.Format.Json.Reader
import ProcessNet.Process.Declaration

namespace ProcessNet

open DocumentReader DocumentWriter

variable {τ : Type}

namespace EventTrigger

def encode [DocumentWriter τ] (t : EventTrigger) : τ := bare t.name

def decode? [DocumentReader τ] (v : τ) : Option EventTrigger := toOneOf? name all v

end EventTrigger

namespace BoundaryTrigger

def encode [DocumentWriter τ] (t : BoundaryTrigger) : τ := bare t.name

def decode? [DocumentReader τ] (v : τ) : Option BoundaryTrigger := toOneOf? name all v

end BoundaryTrigger

namespace GatewayKind

def encode [DocumentWriter τ] (k : GatewayKind) : τ := bare k.name

def decode? [DocumentReader τ] (v : τ) : Option GatewayKind := toOneOf? name all v

end GatewayKind

namespace GatewayDirection

def encode [DocumentWriter τ] (d : GatewayDirection) : τ := bare d.name

def decode? [DocumentReader τ] (v : τ) : Option GatewayDirection := toOneOf? name all v

end GatewayDirection

namespace FlowKind

def encode [DocumentWriter τ] (k : FlowKind) : τ := bare k.name

def decode? [DocumentReader τ] (v : τ) : Option FlowKind := toOneOf? name all v

end FlowKind

namespace NodeKind

def encode [DocumentWriter τ] : NodeKind → τ
  | .task => bare "Task"
  | .subprocess d => holdingFields "SubProcess" [("depth", ofNat d)]
  | .startEvent t => holding "StartEvent" t.encode
  | .endEvent t => holding "EndEvent" t.encode
  | .catchEvent t => holding "IntermediateCatchEvent" t.encode
  | .throwEvent t => holding "IntermediateThrowEvent" t.encode
  | .boundaryEvent t a =>
    holdingFields "BoundaryEvent" [("trigger", t.encode), ("activity", ofText a)]
  | .gateway k d => holdingFields "Gateway" [("kind", k.encode), ("direction", d.encode)]

/-- The kind of the given name with its data. -/
def decodeHolding? [DocumentReader τ] (kind : String) (v : τ) : Option NodeKind :=
  match kind with
  | "Task" => if isEmpty v then some .task else none
  | "SubProcess" => do
    let r ← toFields? "" ["depth"] v
    return .subprocess (← r.required? "depth" (toUnsigned? 32))
  | "StartEvent" => (EventTrigger.decode? v).map .startEvent
  | "EndEvent" => (EventTrigger.decode? v).map .endEvent
  | "IntermediateCatchEvent" => (EventTrigger.decode? v).map .catchEvent
  | "IntermediateThrowEvent" => (EventTrigger.decode? v).map .throwEvent
  | "BoundaryEvent" => do
    let r ← toFields? "" ["trigger", "activity"] v
    let trigger ← r.required? "trigger" BoundaryTrigger.decode?
    return .boundaryEvent trigger (← r.required? "activity" toText?)
  | "Gateway" => do
    let r ← toFields? "" ["kind", "direction"] v
    let kind ← r.required? "kind" GatewayKind.decode?
    return .gateway kind (← r.required? "direction" GatewayDirection.decode?)
  | _ => none

def decode? [DocumentReader τ] (v : τ) : Option NodeKind :=
  match toChoice? v with
  | some (.bare n) => if n = "Task" then some .task else none
  | some (.holding n v) => decodeHolding? n v
  | none => none

end NodeKind

/-- An optional text. -/
def ofOptionalText [DocumentWriter τ] : Option String → τ
  | some s => present (ofText s)
  | none => absent

namespace NodeDeclaration

def encode [DocumentWriter τ] (n : NodeDeclaration) : τ :=
  ofFields
    [("id", ofText n.id), ("name", ofOptionalText n.name), ("kind", n.kind.encode),
      ("process", ofText n.process)]

def decode? [DocumentReader τ] (v : τ) : Option NodeDeclaration := do
  let r ← toFields? "NodeDeclaration" ["id", "name", "kind", "process"] v
  let id ← r.required? "id" toText?
  let name ← r.optional? "name" toText?
  let kind ← r.required? "kind" NodeKind.decode?
  let process ← r.required? "process" toText?
  return { id, name, kind, process }

end NodeDeclaration

namespace FlowDeclaration

/-- A flow is written with its process, the empty text if it has none of its own. -/
def encode [DocumentWriter τ] (f : FlowDeclaration) : τ :=
  ofFields
    [("id", ofText f.id), ("name", ofOptionalText f.name), ("kind", f.kind.encode),
      ("source", ofText f.source), ("target", ofText f.target),
      ("process", ofText (f.process.getD ""))]

def decode? [DocumentReader τ] (v : τ) : Option FlowDeclaration := do
  let r ← toFields? "FlowDeclaration" ["id", "name", "kind", "source", "target", "process"] v
  let id ← r.required? "id" toText?
  let name ← r.optional? "name" toText?
  let kind ← r.required? "kind" FlowKind.decode?
  let source ← r.required? "source" toText?
  let target ← r.required? "target" toText?
  let process ← r.required? "process" toText?
  return { id, name, kind, source, target, process := some process }

end FlowDeclaration

namespace ProcessDeclaration

/-- The declarations that describe a graph. -/
def ofGraph (g : ProcessGraph) : ProcessDeclaration where
  processId := g.processId
  name := g.name
  nodes := g.nodes.items.map fun n =>
    { id := n.id, name := n.name, kind := n.kind, process := n.process }
  flows := g.flows.items.map fun f =>
    { id := f.id, name := f.name, kind := f.kind, source := (g.node f.source).id,
      target := (g.node f.target).id, process := some f.process }

def encode [DocumentWriter τ] (d : ProcessDeclaration) : τ :=
  ofFields
    [("process_id", ofText d.processId), ("name", ofText d.name),
      ("nodes", ofList (d.nodes.map NodeDeclaration.encode)),
      ("flows", ofList (d.flows.map FlowDeclaration.encode))]

def decode? [DocumentReader τ] (v : τ) : Option ProcessDeclaration := do
  let r ← toFields? "ProcessDeclaration" ["process_id", "name", "nodes", "flows"] v
  let processId ← r.required? "process_id" toText?
  let name ← r.required? "name" toText?
  let nodes ← r.required? "nodes" (toListOf? NodeDeclaration.decode?)
  let flows ← r.required? "flows" (toListOf? FlowDeclaration.decode?)
  return { processId, name, nodes, flows }

end ProcessDeclaration

/-- Why no graph could be read from a text. -/
inductive GraphDocumentError where
  /-- The text is not the document of a graph. -/
  | json
  /-- The declarations do not form a graph. -/
  | invalid (error : GraphError)
deriving DecidableEq, Repr

namespace ProcessGraph

/-- The document of the graph. -/
def toJson (g : ProcessGraph) : String :=
  ((ProcessDeclaration.ofGraph g).encode : Json).compact

/-- The graph that a document describes. The declarations come first: whether anything stands behind
them only counts when they form a graph. -/
def ofJson (s : String) : Except GraphDocumentError ProcessGraph :=
  match Json.first? s with
  | none => .error .json
  | some (v, whole) =>
    match ProcessDeclaration.decode? v with
    | none => .error .json
    | some d =>
      match d.build with
      | .error e => .error (.invalid e)
      | .ok g => if whole then .ok g else .error .json

end ProcessGraph

end ProcessNet
