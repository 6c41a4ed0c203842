/-
Neighbours of places and transitions, read from the rows of the incidence. Sets of neighbours are
ascending lists.
-/
import ProcessNet.Net.Basic

namespace ProcessNet.Net

open Identifier

/-- The row of a place. -/
def placeArcs (n : Net) (p : PlaceId) : List (TransitionId × ArcKind) := n.incidence.placeArcs p

/-- The row of a transition. -/
def transitionArcs (n : Net) (t : TransitionId) : List (PlaceId × ArcKind) :=
  n.incidence.transitionArcs t

/-- The transitions of the arcs that end in the place. -/
def placeInArcs (n : Net) (p : PlaceId) : List TransitionId :=
  ((n.placeArcs p).filter fun e => !e.2.isPlaceToTransition).map (·.1)

/-- The arcs that leave the place. -/
def placeOutArcs (n : Net) (p : PlaceId) : List (TransitionId × ArcKind) :=
  (n.placeArcs p).filter (·.2.isPlaceToTransition)

/-- The arcs that end in the transition. -/
def transitionInArcs (n : Net) (t : TransitionId) : List (PlaceId × ArcKind) :=
  (n.transitionArcs t).filter (·.2.isPlaceToTransition)

/-- The places of the arcs that leave the transition. -/
def transitionOutArcs (n : Net) (t : TransitionId) : List PlaceId :=
  ((n.transitionArcs t).filter (·.2 = .output)).map (·.1)

/-- The transitions connected to the place by arcs of one kind. -/
def transitionsAt (n : Net) (p : PlaceId) (kind : ArcKind) : List TransitionId :=
  ascending (((n.placeArcs p).filter (·.2 = kind)).map (·.1))

/-- The places connected to the transition by arcs of one kind. -/
def placesAt (n : Net) (t : TransitionId) (kind : ArcKind) : List PlaceId :=
  ascending (((n.transitionArcs t).filter (·.2 = kind)).map (·.1))

/-- The transitions that put tokens into the place. -/
def producers (n : Net) (p : PlaceId) : List TransitionId := n.transitionsAt p .output

/-- The transitions that take tokens from the place. -/
def consumers (n : Net) (p : PlaceId) : List TransitionId := n.transitionsAt p .input

/-- The transitions that empty the place. -/
def resetters (n : Net) (p : PlaceId) : List TransitionId := n.transitionsAt p .reset

/-- The transitions that need the place to be empty. -/
def inhibited (n : Net) (p : PlaceId) : List TransitionId := n.transitionsAt p .inhibitor

/-- The places that the transition takes tokens from. -/
def preset (n : Net) (t : TransitionId) : List PlaceId := n.placesAt t .input

/-- The places that the transition puts tokens into. -/
def postset (n : Net) (t : TransitionId) : List PlaceId := n.placesAt t .output

/-- The places that the transition empties. -/
def resetPlaces (n : Net) (t : TransitionId) : List PlaceId := n.placesAt t .reset

/-- The places that the transition needs empty. -/
def inhibitorPlaces (n : Net) (t : TransitionId) : List PlaceId := n.placesAt t .inhibitor

end ProcessNet.Net
