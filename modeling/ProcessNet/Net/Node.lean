/-
Places and transitions of a net.
-/
import ProcessNet.Text.Escape

namespace ProcessNet

/-- What a place stands for in the process that the net was made from. -/
inductive PlaceRole where
  /-- A flow that leaves a start event. -/
  | source
  /-- A flow that enters a normal end event. -/
  | sink
  /-- A flow that enters an error end event of the given name; likewise for the next three. -/
  | error (event : String)
  | cancel (event : String)
  | message (event : String)
  | terminate (event : String)
  /-- Any other flow. -/
  | flow
  /-- A place that lets one message interrupt a subprocess. -/
  | boundaryGate
deriving DecidableEq, Repr, Inhabited

namespace PlaceRole

/-- The word that marks the role in the names of places. -/
def mark? : PlaceRole → Option String
  | .source => some "source"
  | .sink => some "sink"
  | .error _ => some "error"
  | .cancel _ => some "cancel"
  | .message _ => some "message"
  | .terminate _ => some "terminate"
  | .flow => none
  | .boundaryGate => some "boundary"

/-- The name of the end event that the role belongs to. -/
def event? : PlaceRole → Option String
  | .error e | .cancel e | .message e | .terminate e => some e
  | .source | .sink | .flow | .boundaryGate => none

def isTerminate : PlaceRole → Bool
  | .terminate _ => true
  | _ => false

/-- The name of the role in documents. -/
def name : PlaceRole → String
  | .source => "Source"
  | .sink => "Sink"
  | .error _ => "Error"
  | .cancel _ => "Cancel"
  | .message _ => "Message"
  | .terminate _ => "Terminate"
  | .flow => "Flow"
  | .boundaryGate => "BoundaryGate"

/-- The roles without an event. -/
def plain : List PlaceRole := [.source, .sink, .flow, .boundaryGate]

/-- The role for reading. -/
def text (r : PlaceRole) : String :=
  match r.event? with
  | some e => Text.applied r.name [Text.literal e]
  | none => r.name

end PlaceRole

/-- A place: its name, its role, and the process that it belongs to. -/
structure Place where
  name : String
  role : PlaceRole := .flow
  process : String := ""
deriving DecidableEq, Repr, Inhabited

/-- The place for reading. -/
def Place.text (p : Place) : String :=
  Text.record "Place"
    [("name", Text.literal p.name), ("role", p.role.text), ("process", Text.literal p.process)]

/-- A transition: its name, the activity it shows when it fires, and its process. -/
structure Transition where
  name : String
  /-- The activity; a transition without one is silent. -/
  label : Option String := none
  process : String := ""
deriving DecidableEq, Repr, Inhabited

def Transition.isSilent (t : Transition) : Bool := t.label.isNone

/-- The transition for reading. -/
def Transition.text (t : Transition) : String :=
  Text.applied "Transition" (Text.literal t.name :: (t.label.map Text.literal).toList)

end ProcessNet
