/-
State graphs: the markings that a net reaches from its initial marking, numbered in the order in
which a breadth-first search meets them, and the firings between them. A limit bounds the number
of states; what lies beyond it is left out, and the graph says so.
-/
import Std.Data.HashMap
import ProcessNet.Net.Firing

namespace ProcessNet

/-- A reached marking with the transitions that it enables. -/
structure State where
  marking : Marking
  enabled : List TransitionId
deriving DecidableEq, Repr, Inhabited

/-- A firing between two states, given by their numbers. -/
structure Edge where
  source : Nat
  target : Nat
  transition : TransitionId
  name : String
  label : Option String
deriving DecidableEq, Repr, Inhabited

/-- The states and firings found from an initial marking, which is the first state. -/
structure StateGraph where
  states : Array State
  edges : Array Edge
  /-- Whether some successor was left out because of the limit. -/
  truncated : Bool
deriving DecidableEq, Repr, Inhabited

namespace StateGraph

/-- The most states that can be numbered. -/
def maxStates : Nat := Nat.pow 2 32 - 1

/-- A search under way: all states and firings found, the states by marking. -/
structure Search where
  graph : StateGraph
  numbers : Std.HashMap Marking Nat

namespace Search

def addEdge (s : Search) (e : Edge) : Search :=
  { s with graph := { s.graph with edges := s.graph.edges.push e } }

/-- Adds a state that was not met before. -/
def addState (s : Search) (n : Net) (m : Marking) : Search where
  graph := { s.graph with states := s.graph.states.push ⟨m, n.enabled m⟩ }
  numbers := s.numbers.insert m s.graph.states.size

/-- The search that has met the initial marking only. -/
def start (n : Net) (m : Marking) : Search :=
  addState ⟨⟨#[], #[], false⟩, ∅⟩ n m

/-- Follows one firing out of a state: to a state met before, or to a new one if the limit admits
it. -/
def follow (n : Net) (limit : Option Nat) (source : Nat) (m : Marking) (s : Search)
    (t : TransitionId) : Except Fault Search := do
  let next ← n.successor m t
  let edge := fun target =>
    { source, target, transition := t, name := n.transitionName t
      label := (n.transition? t).bind (·.label) : Edge }
  match s.numbers[next]? with
  | some target => return s.addEdge (edge target)
  | none =>
    let count := s.graph.states.size
    if limit.any (· ≤ count) then return { s with graph := { s.graph with truncated := true } }
    else if maxStates ≤ count then throw .tooManyStates
    else return (s.addState n next).addEdge (edge count)

/-- Follows all firings out of the state with the given number, and then of those behind it. A state
is worked on once, so `fuel` counts the numbers left. -/
def expand (n : Net) (limit : Option Nat) : Nat → Nat → Search → Except Fault Search
  | 0, _, s => .ok s
  | fuel + 1, number, s =>
    match s.graph.states[number]? with
    | none => .ok s
    | some state => do
      let s ← state.enabled.foldlM (follow n limit number state.marking) s
      expand n limit fuel (number + 1) s

end Search

/-- The state graph of a net from an initial marking, with at most `limit` states. -/
def explore (n : Net) (m : Marking) (limit : Option Nat) : Except Fault StateGraph :=
  (Search.expand n limit maxStates 0 (Search.start n m)).map (·.graph)

/-! ## Questions -/

variable (g : StateGraph)

/-- The numbers of the states in which nothing is enabled. -/
def deadlocks : List Nat :=
  (g.states.toList.zipIdx.filter (·.1.enabled.isEmpty)).map (·.2)

/-- The number of the state with a marking. -/
def numberOf? (m : Marking) : Option Nat := g.states.toList.findIdx? (·.marking = m)

def contains (m : Marking) : Bool := (g.numberOf? m).isSome

/-- The numbers of the states that enable all of the given transitions. -/
def statesEnabling (ts : List TransitionId) : List Nat :=
  (g.states.toList.zipIdx.filter fun (state, _) => ts.all state.enabled.contains).map (·.2)

end StateGraph

/-- Whether the final marking is among the first `limit` states that the net reaches from the
initial marking. -/
def Net.isEasySound (n : Net) (initial final : Marking) (limit : Option Nat) : Except Fault Bool :=
  (StateGraph.explore n initial limit).map (·.contains final)

end ProcessNet
