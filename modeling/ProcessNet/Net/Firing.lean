/-
The token game. A transition is enabled when each of its input places is marked and each of its
inhibitor places is empty. To fire it takes one token from each input place, then empties its
reset places, then puts one token into each output place.
-/
import ProcessNet.Marking.Basic
import ProcessNet.Net.Adjacent

namespace ProcessNet

/-- Why a transition did not fire. -/
inductive FireError where
  | unknown (transition : TransitionId)
  | notEnabled (transition : TransitionId)
  | fault (fault : Fault)
deriving DecidableEq, Repr

def FireError.message : FireError → String
  | .unknown t => s!"transition {Identifier.text t} does not exist or was removed"
  | .notEnabled t => s!"transition {Identifier.text t} is not enabled under the supplied marking"
  | .fault _ => ""

namespace Net

/-- Whether one arc into a transition lets it fire. -/
def permits (m : Marking) : PlaceId × ArcKind → Bool
  | (p, .input) => 1 ≤ m.tokens p
  | (p, .inhibitor) => m.tokens p = 0
  | (_, .reset) | (_, .output) => true

def isEnabled (n : Net) (t : TransitionId) (m : Marking) : Bool :=
  n.hasTransition t && (n.transitionInArcs t).all (permits m)

/-- The enabled transitions, ascending. -/
def enabled (n : Net) (m : Marking) : List TransitionId :=
  n.transitionIds.filter (n.isEnabled · m)

/-- The marking after an enabled transition has fired. -/
def successor (n : Net) (m : Marking) (t : TransitionId) : Except Fault Marking :=
  let inArcs := n.transitionInArcs t
  let taken := m.removeAll ((inArcs.filter (·.2 = .input)).map fun e => (e.1, 1))
  let cleared := taken.clearAll ((inArcs.filter (·.2 = .reset)).map (·.1))
  cleared.addAll ((n.transitionOutArcs t).map fun p => (p, 1))

/-- Fires a transition. -/
def fire (n : Net) (m : Marking) (t : TransitionId) : Except FireError Marking :=
  if !n.hasTransition t then .error (.unknown t)
  else if !n.isEnabled t m then .error (.notEnabled t)
  else
    match n.successor m t with
    | .ok m => .ok m
    | .error f => .error (.fault f)

end Net

end ProcessNet
