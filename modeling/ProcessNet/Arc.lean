/-
Arcs: the four kinds of connection between a place and a transition.
-/
import ProcessNet.Identifier

namespace ProcessNet

open Identifier

/-- How a place and a transition are connected. -/
inductive ArcKind where
  /-- The transition takes a token from the place. -/
  | input
  /-- The transition puts a token into the place. -/
  | output
  /-- The transition empties the place. -/
  | reset
  /-- The transition needs the place to be empty. -/
  | inhibitor
deriving DecidableEq, Hashable, Repr, Inhabited

namespace ArcKind

/-- Input and output arcs move single tokens. -/
def isNormal : ArcKind → Bool
  | .input | .output => true
  | .reset | .inhibitor => false

/-- Whether the arc leads from the place to the transition. -/
def isPlaceToTransition : ArcKind → Bool
  | .output => false
  | _ => true

/-- The name of the kind in documents. -/
def name : ArcKind → String
  | .input => "Input"
  | .output => "Output"
  | .reset => "Reset"
  | .inhibitor => "Inhibitor"

def all : List ArcKind := [.input, .output, .reset, .inhibitor]

end ArcKind

/-- A connection of the given kind between a place and a transition. -/
structure Arc where
  place : PlaceId
  transition : TransitionId
  kind : ArcKind
deriving DecidableEq, Hashable, Repr, Inhabited

namespace Arc

def input (p : PlaceId) (t : TransitionId) : Arc := ⟨p, t, .input⟩
def output (t : TransitionId) (p : PlaceId) : Arc := ⟨p, t, .output⟩
def reset (p : PlaceId) (t : TransitionId) : Arc := ⟨p, t, .reset⟩
def inhibitor (p : PlaceId) (t : TransitionId) : Arc := ⟨p, t, .inhibitor⟩

/-- The arc as an arrow between its ends. -/
def text (a : Arc) : String :=
  match a.kind with
  | .input => Identifier.text a.place ++ "->" ++ Identifier.text a.transition
  | .output => Identifier.text a.transition ++ "->" ++ Identifier.text a.place
  | .reset => Identifier.text a.place ++ "-R->" ++ Identifier.text a.transition
  | .inhibitor => Identifier.text a.place ++ "-o" ++ Identifier.text a.transition

end Arc

end ProcessNet
