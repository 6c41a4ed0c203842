/-
Boundary events. An event on a task takes the token in front of the task. An error or a
cancellation on a subprocess takes the token of the end event that raised it, whose raising clears
the subprocess. A message on a subprocess can arrive once between entry and exit: entering opens a
gate, and both leaving and the message close it; the message clears the subprocess.
-/
import ProcessNet.Conversion.Nesting

namespace ProcessNet.Construction

/-- The label of the transition of a boundary event. -/
def boundaryLabel (showEvents : Bool) (event : Node) : Option String :=
  if showEvents then event.displayName? else none

def boundaryName (event process : String) : String := joinName ["t-boundary", event, process]

/-! ## Events on tasks -/

/-- A transition from the place in front of a task to the place behind an event on it. -/
def addTaskBoundary (g : ProcessGraph) (showEvents : Bool) (task event : NodeId) :
    ConstructionM Unit := do
  let input ← inPlace g task
  let output ← outPlace g event
  let process := (g.node task).process
  let node := g.node event
  let _ ← addStep
    { name := boundaryName node.id process, label := boundaryLabel showEvents node, process }
    [input] [output]

/-- The transitions of all events on tasks. -/
def addTaskBoundaries (g : ProcessGraph) (showEvents : Bool) : ConstructionM Unit :=
  (g.select (·.kind = .task)).forM fun task =>
    (g.boundaryEventsOf (g.node task).id).forM (addTaskBoundary g showEvents task)

/-! ## Events on subprocesses -/

/-- The end events directly inside a subprocess that raise a boundary event. -/
def raisingEnds (g : ProcessGraph) (subprocess : String) (event : Node)
    (trigger : BoundaryTrigger) : List NodeId :=
  (g.endsOf subprocess).filter fun n =>
    (g.node n).kind = .endEvent trigger.endTrigger && (g.node n).eventName = event.eventName

/-- Appends the place in front of an end event, if it is live and not listed yet. -/
def collectEnd (g : ProcessGraph) (found : List PlaceId) (n : NodeId) :
    ConstructionM (List PlaceId) := do
  let p ← inPlace g n
  if (← get).net.hasPlace p ∧ p ∉ found then return found ++ [p] else return found

/-- Lets everything that puts a token into `duplicate` put one into `main`, and removes
`duplicate`. -/
def mergeInto (main duplicate : PlaceId) : ConstructionM Unit := do
  ((← get).net.producers duplicate).forM fun t => addArc (.output t main)
  let _ ← onNet (·.removePlace duplicate)

/-- Merges the places of all ends that raise a boundary event into the first of them. -/
def mergeRaisingEnds (g : ProcessGraph) (s : JoinedSubprocess) (event : Node)
    (trigger : BoundaryTrigger) : ConstructionM PlaceId := do
  match ← (raisingEnds g s.id event trigger).foldlM (collectEnd g) [] with
  | [] => throw (.deficient event.id (.notRaised trigger event.eventName s.id))
  | main :: duplicates =>
    duplicates.forM (mergeInto main)
    return main

/-- The gate of a message: opened on entry, closed by every exit and by the message. -/
def addGate (s : JoinedSubprocess) (event : Node) (t : TransitionId) : ConstructionM Unit := do
  let gate ← addPlace
    { name := joinName ["boundary", event.id, s.id], role := .boundaryGate, process := s.id }
  addArc (.output s.enter gate)
  s.exits.forM fun exit => addArc (.input gate exit)
  addArc (.input gate t)

/-- The outcome of adding boundary events: the places of the ends that raise some of them, and the
transitions of the messages. -/
structure Interruptions where
  raised : List PlaceId := []
  messages : List TransitionId := []

/-- Adds the transition of one event on a subprocess. -/
def addSubprocessBoundary (g : ProcessGraph) (showEvents : Bool) (s : JoinedSubprocess)
    (found : Interruptions) (n : NodeId) : ConstructionM Interruptions := do
  let event := g.node n
  match event.kind with
  | .boundaryEvent trigger _ =>
    let output ← outPlace g n
    let t ← addTransition {
      name := boundaryName event.id s.parent, label := boundaryLabel showEvents event
      process := s.parent }
    addArc (.output t output)
    if trigger.isInternal then
      let p ← mergeRaisingEnds g s event trigger
      addArc (.input p t)
      return { found with raised := if p ∈ found.raised then found.raised else found.raised ++ [p] }
    else
      addGate s event t
      return { found with messages := found.messages ++ [t] }
  | _ => return found

/-- Adds all events on a subprocess, and then the arcs by which they clear it. -/
def addSubprocessBoundaries (g : ProcessGraph) (showEvents : Bool) (s : JoinedSubprocess) :
    ConstructionM Unit := do
  let events := g.boundaryEventsOf s.id
  if events.isEmpty then return
  let found ← events.foldlM (addSubprocessBoundary g showEvents s) {}
  let scope := scopePlaces g (← get).net s.id
  found.raised.forM fun p => clearOnEntry p (scope.filter (· ∉ found.raised))
  found.messages.forM (addResets scope)

end ProcessNet.Construction
