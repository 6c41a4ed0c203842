/-
Incidence: the arcs of a net in the order in which they came, and beside them one row of arcs for
each place and each transition, so that the neighbours of a node are found without a search.
The rows are part of the data: a document may bring rows that do not fit the arcs.
-/
import ProcessNet.Arc
import ProcessNet.Arena
import ProcessNet.Text.Escape

namespace ProcessNet

/-- The arcs of a net with their rows by place and by transition. -/
structure Incidence where
  /-- Every arc once, in order of insertion. -/
  arcs : List Arc := []
  byPlace : Arena PlaceId (List (TransitionId × ArcKind)) := {}
  byTransition : Arena TransitionId (List (PlaceId × ArcKind)) := {}
deriving DecidableEq, Repr, Inhabited

/-- The first disagreement between the arcs and the rows. -/
inductive RowMismatch where
  | absentAtPlace (arc : Arc)
  | absentAtTransition (arc : Arc)
  /-- The rows hold another number of entries than there are arcs. -/
  | totals (byPlace byTransition arcs : Nat)
deriving DecidableEq, Repr

def RowMismatch.message : RowMismatch → String
  | .absentAtPlace a => a.text ++ " missing from place adjacency"
  | .absentAtTransition a => a.text ++ " missing from transition adjacency"
  | .totals p t n => s!"adjacency holds {p}/{t} entries for {n} arcs"

namespace Incidence

def size (inc : Incidence) : Nat := inc.arcs.length

def isEmpty (inc : Incidence) : Bool := inc.arcs.isEmpty

def contains (inc : Incidence) (a : Arc) : Bool := inc.arcs.contains a

/-- Opens an empty row for a new place. -/
def pushPlace (inc : Incidence) : Incidence × PlaceId :=
  ({ inc with byPlace := inc.byPlace.push [] }, inc.byPlace.next)

/-- Opens an empty row for a new transition. -/
def pushTransition (inc : Incidence) : Incidence × TransitionId :=
  ({ inc with byTransition := inc.byTransition.push [] }, inc.byTransition.next)

/-- The row of a place; a place without a row has no arcs. -/
def placeArcs (inc : Incidence) (p : PlaceId) : List (TransitionId × ArcKind) :=
  (inc.byPlace.get? p).getD []

/-- The row of a transition; a transition without a row has no arcs. -/
def transitionArcs (inc : Incidence) (t : TransitionId) : List (PlaceId × ArcKind) :=
  (inc.byTransition.get? t).getD []

/-- Adds an arc and its two row entries; the answer is whether it was new. -/
def insert (inc : Incidence) (a : Arc) : Except Fault (Incidence × Bool) :=
  if inc.contains a then .ok (inc, false)
  else do
    let byPlace ← inc.byPlace.modifyAt a.place (· ++ [(a.transition, a.kind)])
    let byTransition ← inc.byTransition.modifyAt a.transition (· ++ [(a.place, a.kind)])
    return ({ arcs := inc.arcs ++ [a], byPlace, byTransition }, true)

/-- Removes an arc and its row entries; the answer is whether it was there. -/
def erase (inc : Incidence) (a : Arc) : Except Fault (Incidence × Bool) :=
  if inc.contains a then do
    let byPlace ← inc.byPlace.modifyAt a.place (·.filter (· ≠ (a.transition, a.kind)))
    let byTransition ← inc.byTransition.modifyAt a.transition (·.filter (· ≠ (a.place, a.kind)))
    return ({ arcs := inc.arcs.erase a, byPlace, byTransition }, true)
  else .ok (inc, false)

/-- Removes the listed arcs, one after the other. -/
def eraseAll (inc : Incidence) (l : List Arc) : Except Fault Incidence :=
  l.foldlM (fun inc a => (inc.erase a).map (·.1)) inc

/-- Removes the arcs that the row of `p` lists, and answers them. -/
def detachPlace (inc : Incidence) (p : PlaceId) : Except Fault (Incidence × List Arc) :=
  let l := (inc.placeArcs p).map fun (t, kind) => Arc.mk p t kind
  (inc.eraseAll l).map fun inc => (inc, l)

/-- Removes the arcs that the row of `t` lists, and answers them. -/
def detachTransition (inc : Incidence) (t : TransitionId) : Except Fault (Incidence × List Arc) :=
  let l := (inc.transitionArcs t).map fun (p, kind) => Arc.mk p t kind
  (inc.eraseAll l).map fun inc => (inc, l)

/-- The first disagreement between an arc and the rows of its two ends. -/
def rowMismatchAt? (inc : Incidence) (a : Arc) : Option RowMismatch :=
  if (inc.placeArcs a.place).contains (a.transition, a.kind) then
    if (inc.transitionArcs a.transition).contains (a.place, a.kind) then none
    else some (.absentAtTransition a)
  else some (.absentAtPlace a)

/-- The first disagreement between arcs and rows: an arc without its entries, or else totals that
differ. -/
def rowMismatch? (inc : Incidence) : Option RowMismatch :=
  match inc.arcs.findSome? inc.rowMismatchAt? with
  | some m => some m
  | none =>
    let p := inc.byPlace.items.flatten.length
    let t := inc.byTransition.items.flatten.length
    if p = inc.size ∧ t = inc.size then none else some (.totals p t inc.size)

/-- The arcs as a set of arrows. -/
def text (inc : Incidence) : String :=
  Text.braced (inc.arcs.map Arc.text)

end Incidence

end ProcessNet
