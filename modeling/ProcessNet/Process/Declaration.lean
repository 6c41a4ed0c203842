/-
Process graphs from declarations. Nodes and flows are declared by id, in any order, and become a
graph when they fit together: ids differ, flows join declared nodes, everything belongs to the
root process or a subprocess, and every chain of subprocesses leads to the root.
-/
import ProcessNet.Process.Graph

namespace ProcessNet

/-- A node as declared. -/
structure NodeDeclaration where
  id : String
  name : Option String
  kind : NodeKind
  process : String
deriving DecidableEq, Repr, Inhabited

/-- The node, with its depth among the given ones if it is a subprocess. -/
def NodeDeclaration.node (n : NodeDeclaration) (depths : List (String × Nat)) : Node where
  id := n.id
  name := n.name
  kind :=
    match n.kind with
    | .subprocess _ => .subprocess ((depths.lookup n.id).getD 1)
    | kind => kind
  process := n.process

/-- A flow as declared; without a process it belongs to that of its source. -/
structure FlowDeclaration where
  id : String
  name : Option String
  kind : FlowKind
  source : String
  target : String
  process : Option String
deriving DecidableEq, Repr, Inhabited

/-- A process as declared. -/
structure ProcessDeclaration where
  processId : String
  name : String
  nodes : List NodeDeclaration := []
  flows : List FlowDeclaration := []
deriving DecidableEq, Repr, Inhabited

namespace ProcessDeclaration

/-- The first declared node with an id. -/
def find? (d : ProcessDeclaration) (id : String) : Option NodeDeclaration :=
  d.nodes.find? (·.id = id)

/-- The declared subprocess with an id. -/
def subprocess? (d : ProcessDeclaration) (id : String) : Option NodeDeclaration :=
  d.nodes.find? fun n => n.id = id && n.kind.isSubprocess

/-- Whether an id names the root process or a declared subprocess. -/
def isProcess (d : ProcessDeclaration) (id : String) : Bool :=
  id = d.processId || (d.subprocess? id).isSome

/-! ## Checks on nodes -/

/-- Every id is new, and no node contains itself. -/
def checkIds (d : ProcessDeclaration) : List String → List NodeDeclaration → Except GraphError Unit
  | _, [] => .ok ()
  | seen, n :: rest =>
    if n.id = d.processId ∨ n.id ∈ seen then .error (.duplicateNode n.id)
    else if n.process = n.id then .error (.selfContainment n.id)
    else d.checkIds (n.id :: seen) rest

/-- The node belongs to a process, and a boundary event to an activity. -/
def checkNode (d : ProcessDeclaration) (n : NodeDeclaration) : Except GraphError Unit :=
  if !d.isProcess n.process then .error (.unknownProcess n.id n.process)
  else
    match n.kind with
    | .boundaryEvent _ activity =>
      if (d.find? activity).any (·.kind.isActivity) then .ok ()
      else .error (.invalidBoundary n.id activity)
    | _ => .ok ()

/-! ## Depths -/

/-- The way from a process out to the root process, or to a subprocess that has its depth already: the
subprocesses passed on it, the last one first, and the depth where it ends. The way began at `start`.
It passes no subprocess twice, so `fuel` counts the nodes that it may still come by. -/
def wayOut (d : ProcessDeclaration) (depths : List (String × Nat)) (start : String) :
    Nat → List String → String → Except GraphError (List String × Nat)
  | 0, _, _ => .error (.containmentCycle start)
  | fuel + 1, passed, id =>
    match depths.lookup id with
    | some depth => .ok (passed, depth)
    | none =>
      if id = d.processId then .ok (passed, 0)
      else if id ∈ passed then .error (.containmentCycle start)
      else
        match d.subprocess? id with
        | none => .error (.unknownProcess start id)
        | some n => d.wayOut depths start fuel (id :: passed) n.process

/-- Notes the depths of a subprocess and of those on its way out: each lies one deeper than the one
around it. -/
def noteDepths (d : ProcessDeclaration) (depths : List (String × Nat)) (start : String) :
    Except GraphError (List (String × Nat)) :=
  (d.wayOut depths start (d.nodes.length + 1) [] start).map fun (passed, depth) =>
    passed.zipIdx (depth + 1) ++ depths

/-- The depths of the listed subprocesses, looked at one after the other. -/
def nestingDepths (d : ProcessDeclaration) (order : List String) :
    Except GraphError (List (String × Nat)) :=
  order.foldlM d.noteDepths []

/-- The ids of the declared subprocesses. -/
def subprocessIds (d : ProcessDeclaration) : List String :=
  (d.nodes.filter (·.kind.isSubprocess)).map (·.id)

/-! ## Flows -/

/-- Adds a declared flow to the graph. -/
def addFlow (d : ProcessDeclaration) (g : ProcessGraph) (f : FlowDeclaration) :
    Except GraphError ProcessGraph :=
  if (g.flowById? f.id).isSome then .error (.duplicateFlow f.id)
  else
    match g.nodeById? f.source with
    | none => .error (.unknownNode f.id f.source)
    | some source =>
      match g.nodeById? f.target with
      | none => .error (.unknownNode f.id f.target)
      | some target =>
        let process := f.process.getD (g.node source).process
        if !d.isProcess process then .error (.unknownProcess f.id process)
        else g.insertFlow { id := f.id, name := f.name, kind := f.kind, source, target, process }

/-- The graph of the declarations. Ids come first, then the places of nodes, then depths, for which
the subprocesses are looked at in the given order, then flows one by one. -/
def buildIn (d : ProcessDeclaration) (order : List String) : Except GraphError ProcessGraph := do
  d.checkIds [] d.nodes
  d.nodes.forM d.checkNode
  let depths ← d.nestingDepths order
  let nodes := d.nodes.map (·.node depths)
  d.flows.foldlM d.addFlow { processId := d.processId, name := d.name, nodes := ⟨nodes⟩ }

/-- The graph of the declarations, with subprocesses looked at as they were declared. -/
def build (d : ProcessDeclaration) : Except GraphError ProcessGraph := d.buildIn d.subprocessIds

end ProcessDeclaration

end ProcessNet
