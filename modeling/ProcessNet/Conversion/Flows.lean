/-
Places of flows. Every flow gets a place whose role and name tell what it leaves or enters; flows
into normal ends of the root process share one place.
-/
import ProcessNet.Conversion.Basic

namespace ProcessNet.Construction

/-- The role of the place of a flow into an end event. -/
def endRole (trigger : EventTrigger) (event : String) : PlaceRole :=
  match trigger with
  | .normal => .sink
  | .error => .error event
  | .cancel => .cancel event
  | .message => .message event
  | .terminate => .terminate event

/-- The name of the place of a flow: the mark of its role, the event, the flow and its process. -/
def flowPlaceName (role : PlaceRole) (f : Flow) : String :=
  joinName (role.mark?.toList ++ role.event?.toList ++ [f.id, f.process])

/-- The role of the place of a flow. To leave a start event weighs more than to enter an end. -/
def flowRole (g : ProcessGraph) (f : Flow) : PlaceRole :=
  let target := g.node f.target
  if (g.node f.source).kind.isStart then .source
  else
    match target.kind with
    | .endEvent trigger => endRole trigger target.eventName
    | _ => .flow

/-- Whether a flow enters a normal end of the root process, without leaving a start event. -/
def entersRootEnd (g : ProcessGraph) (f : Flow) : Bool :=
  !(g.node f.source).kind.isStart && (g.node f.target).kind = .endEvent .normal
    && g.isRoot (g.node f.target).process

/-- Gives one flow its place. -/
def addFlowPlace (g : ProcessGraph) (id : FlowId) : ConstructionM Unit := do
  let f := g.flow id
  let c ← get
  match if entersRootEnd g f then c.rootSink else none with
  | some p => modify fun c => { c with flowPlaces := (id, p) :: c.flowPlaces }
  | none =>
    let role := flowRole g f
    let p ← addPlace { name := flowPlaceName role f, role, process := f.process }
    modify fun c => { c with
      flowPlaces := (id, p) :: c.flowPlaces
      rootSink := if entersRootEnd g f then some p else c.rootSink }

/-- Gives every flow its place, in the order of the ids. -/
def addFlowPlaces (g : ProcessGraph) : ConstructionM Unit := g.sortedFlows.forM (addFlowPlace g)

end ProcessNet.Construction
