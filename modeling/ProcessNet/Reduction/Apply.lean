/-
Applying the rules at their matches. The state of a reduction is the net with its markings and the
steps taken; whatever fails leaves the state as it was at that moment.
-/
import ProcessNet.Reduction.Match
import ProcessNet.Reduction.Rule

namespace ProcessNet

/-- A reduction under way. -/
structure Reduction where
  accepting : AcceptingNet
  /-- The steps taken, in order. -/
  steps : List ReductionStep := []
deriving Repr, Inhabited

/-- Steps of a reduction. -/
abbrev ReductionM := EStateM ReductionError Reduction

namespace Reduction

def net (s : Reduction) : Net := s.accepting.net

def size (s : Reduction) : NetSize := s.net.measure

/-- Changes the net, or fails and leaves it. -/
def onNet {α : Type} (f : Net → Except NetError (Net × α)) : ReductionM Unit := do
  match f (← get).net with
  | .ok (net, _) => modify fun s => { s with accepting := { s.accepting with net } }
  | .error e => throw (.net e)

def removePlace (p : PlaceId) : ReductionM Unit := onNet (·.removePlace p)

def removeTransition (t : TransitionId) : ReductionM Unit := onNet (·.removeTransition t)

def addOutput (t : TransitionId) (p : PlaceId) : ReductionM Unit := onNet (·.addArc (.output t p))

/-- Drops a place from the initial marking, and answers what it held. -/
def takeInitial (p : PlaceId) : ReductionM Nat := do
  let s ← get
  let (k, initial) := s.accepting.initial.take p
  set { s with accepting := { s.accepting with initial } }
  return k

/-- Drops a place from the final marking. -/
def dropFinal (p : PlaceId) : ReductionM Unit :=
  modify fun s =>
    { s with accepting := { s.accepting with final := (s.accepting.final.take p).2 } }

/-- Puts tokens into the initial marking. -/
def addInitial (p : PlaceId) (k : Nat) : ReductionM Unit := do
  let s ← get
  match s.accepting.initial.add p k with
  | .ok initial => set { s with accepting := { s.accepting with initial } }
  | .error f => throw (.net (.fault f))

/-! ## The rules -/

/-- Lets the first transition put its tokens where the second one did, without the place between
them. Answers the places around the first transition. -/
def fuseSeriesTransitions (p : PlaceId) (m : AcceptingNet.SeriesTransitions) :
    ReductionM (List PlaceId) := do
  let targets := (← get).net.postset m.second
  removePlace p
  removeTransition m.second
  targets.forM (addOutput m.first)
  return ((← get).net.transitionArcs m.first).map (·.1)

/-- Lets the producers of the first place serve the second one, which takes over the tokens. Answers
the transitions around the second place. -/
def fuseSeriesPlaces (t : TransitionId) (m : AcceptingNet.SeriesPlaces) :
    ReductionM (List TransitionId) := do
  let sources := (← get).net.producers m.first
  removeTransition t
  removePlace m.first
  sources.forM (addOutput · m.second)
  let k ← takeInitial m.first
  if 0 < k then addInitial m.second k
  return ((← get).net.placeArcs m.second).map (·.1)

/-- Removes all of a group of equal transitions but the first. -/
def fuseParallelTransitions (m : AcceptingNet.Duplicates TransitionId) : ReductionM Unit :=
  m.removed.forM removeTransition

/-- Removes all of a group of equal places but the first, from net and markings. -/
def fuseParallelPlaces (m : AcceptingNet.Duplicates PlaceId) : ReductionM Unit :=
  m.removed.forM fun p => do
    removePlace p
    let _ ← takeInitial p
    dropFinal p

/-- Removes a silent self-loop. Answers the other producers of its place. -/
def removeSelfLoopTransition (t : TransitionId) (p : PlaceId) :
    ReductionM (List TransitionId) := do
  removeTransition t
  return (← get).net.producers p

/-- Removes a place whose token is always there. -/
def removeSelfLoopPlace (p : PlaceId) : ReductionM (List PlaceId) := do
  removePlace p
  let _ ← takeInitial p
  return []

/-- Lets every producer of the place in front of a silent step put tokens into the places behind it.
Answers the transitions that take from those. -/
def skipSilentStep (t : TransitionId) (m : AcceptingNet.SilentStep) :
    ReductionM (List TransitionId) := do
  removeTransition t
  removePlace m.place
  m.producers.forM fun u => m.targets.forM (addOutput u)
  return m.targets.flatMap (← get).net.consumers

/-- Removes a reset arc. -/
def removeReset (p : PlaceId) (t : TransitionId) : ReductionM Unit :=
  onNet (·.removeArc (.reset p t))

end Reduction

end ProcessNet
