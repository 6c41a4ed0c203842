/-
The consistency of a net: rows and arcs agree, no arc touches a removed node, and the name indices
lead from the name of each live node to that node and hold nothing else.
-/
import ProcessNet.Net.Adjacent

namespace ProcessNet.Net

/-- What is wrong with the ends of an arc. -/
def inconsistencyAt? (n : Net) (a : Arc) : Option Inconsistency :=
  if !n.hasPlace a.place then some (.deadPlace a)
  else if !n.hasTransition a.transition then some (.deadTransition a)
  else none

/-- The first thing that is wrong with the parts of the net: the rows come first, then the ends of
arcs, the names of places, the names of transitions, and stray names last. -/
def inconsistency? (n : Net) : Option Inconsistency :=
  (n.incidence.rowMismatch?.map .rows)
    <|> n.arcs.findSome? n.inconsistencyAt?
    <|> n.livePlaces.findSome? (fun (p, place) =>
      if n.placeNames.find? place.name = some p then none else some (.placeName place.name p))
    <|> n.liveTransitions.findSome? (fun (t, transition) =>
      if n.transitionNames.find? transition.name = some t then none
      else some (.transitionName transition.name t))
    <|> if n.placeCount = n.livePlaces.length ∧ n.transitionCount = n.liveTransitions.length then
      none
    else some .strayNames

/-- Fails unless all parts of the net agree. -/
def checkConsistency (n : Net) : Except NetError Unit :=
  match n.inconsistency? with
  | some i => .error (.inconsistent i)
  | none => .ok ()

end ProcessNet.Net
