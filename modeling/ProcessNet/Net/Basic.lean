/-
Nets with reset and inhibitor arcs. Nodes live in arenas with optional slots: to delete a node is
to empty its slot, so an identifier never changes its meaning and markings stay valid.
-/
import ProcessNet.Incidence
import ProcessNet.Net.NameIndex
import ProcessNet.Net.Node

namespace ProcessNet

/-- A net with reset and inhibitor arcs. -/
structure Net where
  name : String := ""
  places : Arena PlaceId (Option Place) := {}
  transitions : Arena TransitionId (Option Transition) := {}
  incidence : Incidence := {}
  placeNames : NameIndex PlaceId := {}
  transitionNames : NameIndex TransitionId := {}
deriving DecidableEq, Repr, Inhabited

/-- What is wrong with the parts of a net. -/
inductive Inconsistency where
  | rows (mismatch : RowMismatch)
  /-- An arc at a place that was removed. -/
  | deadPlace (arc : Arc)
  /-- An arc at a transition that was removed. -/
  | deadTransition (arc : Arc)
  /-- A name that does not lead to the place that bears it. -/
  | placeName (name : String) (place : PlaceId)
  /-- A name that does not lead to the transition that bears it. -/
  | transitionName (name : String) (transition : TransitionId)
  /-- More or fewer names than nodes. -/
  | strayNames
deriving DecidableEq, Repr

def Inconsistency.message : Inconsistency → String
  | .rows m => m.message
  | .deadPlace a => s!"{a.text} references removed place {Identifier.text a.place}"
  | .deadTransition a => s!"{a.text} references removed transition {Identifier.text a.transition}"
  | .placeName n p => "name index does not resolve `" ++ n ++ "` to " ++ Identifier.text p
  | .transitionName n t => "name index does not resolve `" ++ n ++ "` to " ++ Identifier.text t
  | .strayNames => "name index holds entries for removed nodes"

/-- Why an operation on a net failed. -/
inductive NetError where
  | duplicatePlace (name : String)
  | duplicateTransition (name : String)
  | unknownPlace (place : PlaceId)
  | unknownTransition (transition : TransitionId)
  | inconsistent (reason : Inconsistency)
  | fault (fault : Fault)
deriving DecidableEq, Repr

namespace NetError

def message : NetError → String
  | .duplicatePlace n => "a place named `" ++ n ++ "` already exists"
  | .duplicateTransition n => "a transition named `" ++ n ++ "` already exists"
  | .unknownPlace p => s!"place {Identifier.text p} does not exist or was removed"
  | .unknownTransition t => s!"transition {Identifier.text t} does not exist or was removed"
  | .inconsistent r => "inconsistent arc structure: " ++ r.message
  | .fault _ => ""

/-- Hands a fault on as an error of the net. -/
def ofFault {α : Type} : Except Fault α → Except NetError α
  | .ok x => .ok x
  | .error f => .error (.fault f)

end NetError

namespace Net

/-! ## Look-up -/

/-- The live place with this identifier. -/
def place? (n : Net) (p : PlaceId) : Option Place := (n.places.get? p).join

/-- The live transition with this identifier. -/
def transition? (n : Net) (t : TransitionId) : Option Transition := (n.transitions.get? t).join

def hasPlace (n : Net) (p : PlaceId) : Bool := (n.place? p).isSome

def hasTransition (n : Net) (t : TransitionId) : Bool := (n.transition? t).isSome

/-- The live places, ascending. -/
def livePlaces (n : Net) : List (PlaceId × Place) :=
  n.places.entries.filterMap fun (p, slot) => slot.map (p, ·)

/-- The live transitions, ascending. -/
def liveTransitions (n : Net) : List (TransitionId × Transition) :=
  n.transitions.entries.filterMap fun (t, slot) => slot.map (t, ·)

def placeIds (n : Net) : List PlaceId := n.livePlaces.map (·.1)

def transitionIds (n : Net) : List TransitionId := n.liveTransitions.map (·.1)

def arcs (n : Net) : List Arc := n.incidence.arcs

def hasArc (n : Net) (a : Arc) : Bool := n.incidence.contains a

/-- The number of names of places. -/
def placeCount (n : Net) : Nat := n.placeNames.size

/-- The number of names of transitions. -/
def transitionCount (n : Net) : Nat := n.transitionNames.size

def arcCount (n : Net) : Nat := n.incidence.size

/-- Whether the transition is live and shows no activity. -/
def isSilent (n : Net) (t : TransitionId) : Bool := (n.transition? t).any Transition.isSilent

/-- The name of a place, or its identifier if it is not live. -/
def placeName (n : Net) (p : PlaceId) : String :=
  match n.place? p with
  | some place => place.name
  | none => Identifier.text p

/-- The name of a transition, or its identifier if it is not live. -/
def transitionName (n : Net) (t : TransitionId) : String :=
  match n.transition? t with
  | some transition => transition.name
  | none => Identifier.text t

/-! ## Adding nodes and arcs -/

/-- Adds a place under a name that no other place has. -/
def addPlace (n : Net) (place : Place) : Except NetError (Net × PlaceId) :=
  if n.placeNames.contains place.name then .error (.duplicatePlace place.name)
  else
    let (incidence, p) := n.incidence.pushPlace
    if p = n.places.next then
      .ok ({ n with
        places := n.places.push (some place), incidence
        placeNames := n.placeNames.insert place.name p }, p)
    else .error (.fault .slotMismatch)

/-- Adds a transition under a name that no other transition has. -/
def addTransition (n : Net) (transition : Transition) : Except NetError (Net × TransitionId) :=
  if n.transitionNames.contains transition.name then
    .error (.duplicateTransition transition.name)
  else
    let (incidence, t) := n.incidence.pushTransition
    if t = n.transitions.next then
      .ok ({ n with
        transitions := n.transitions.push (some transition), incidence
        transitionNames := n.transitionNames.insert transition.name t }, t)
    else .error (.fault .slotMismatch)

/-- Adds an arc between two live nodes; the answer is whether it was new. -/
def addArc (n : Net) (a : Arc) : Except NetError (Net × Bool) :=
  if n.hasPlace a.place then
    if n.hasTransition a.transition then
      (NetError.ofFault (n.incidence.insert a)).map fun (incidence, new) =>
        ({ n with incidence }, new)
    else .error (.unknownTransition a.transition)
  else .error (.unknownPlace a.place)

/-! ## Removing -/

/-- Removes an arc; the answer is whether it was there. -/
def removeArc (n : Net) (a : Arc) : Except NetError (Net × Bool) :=
  (NetError.ofFault (n.incidence.erase a)).map fun (incidence, found) =>
    ({ n with incidence }, found)

/-- Removes a live place together with its arcs, and answers it. -/
def removePlace (n : Net) (p : PlaceId) : Except NetError (Net × Place) :=
  match n.place? p with
  | none => .error (.unknownPlace p)
  | some place =>
    (NetError.ofFault (n.incidence.detachPlace p)).map fun (incidence, _) =>
      ({ n with
        places := n.places.set p none, incidence
        placeNames := n.placeNames.erase place.name }, place)

/-- Removes a live transition together with its arcs, and answers it. -/
def removeTransition (n : Net) (t : TransitionId) : Except NetError (Net × Transition) :=
  match n.transition? t with
  | none => .error (.unknownTransition t)
  | some transition =>
    (NetError.ofFault (n.incidence.detachTransition t)).map fun (incidence, _) =>
      ({ n with
        transitions := n.transitions.set t none, incidence
        transitionNames := n.transitionNames.erase transition.name }, transition)

/-! ## Editing in place -/

/-- Changes the data of a live place; the name index stays as it is. -/
def editPlace (n : Net) (p : PlaceId) (f : Place → Place) : Net :=
  { n with places := n.places.modify p (·.map f) }

/-- Changes the data of a live transition; the name index stays as it is. -/
def editTransition (n : Net) (t : TransitionId) (f : Transition → Transition) : Net :=
  { n with transitions := n.transitions.modify t (·.map f) }

end Net

end ProcessNet
