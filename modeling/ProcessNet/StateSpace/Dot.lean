/-
State graphs as graph descriptions in the DOT language.
-/
import ProcessNet.Net.Text
import ProcessNet.StateSpace.Basic

namespace ProcessNet

/-- The state with the given number, for reading. -/
def State.text (s : State) (number : Nat) : String :=
  Text.record "StateNode"
    [("index", toString number), ("marking", s.marking.inspect),
      ("enabled", Text.bracketed (s.enabled.map Identifier.text))]

namespace StateGraph

/-- A text within the quotes of an attribute; line ends stay as they are. -/
def escapeAttribute (s : String) : String :=
  String.ofList <| s.toList.flatMap fun c => if c = '"' ∨ c = '\\' then ['\\', c] else [c]

def dotOfState (n : Net) (s : State) (number : Nat) : String :=
  let marking := escapeAttribute (s.marking.text n)
  s!"    {number} [ label = \"{s.text number}\" label=\"s{number}\\n{marking}\"]"

def dotOfEdge (e : Edge) : String :=
  let label := escapeAttribute (e.label.getD e.name)
  s!"    {e.source} -> {e.target} [ label=\"{label}\"]"

/-- The graph description of the state graph. -/
def toDot (g : StateGraph) (n : Net) : String :=
  let lines := ["digraph \x7b"] ++ (g.states.toList.zipIdx.map fun (s, k) => dotOfState n s k)
    ++ g.edges.toList.map dotOfEdge ++ ["\x7d"]
  String.join (lines.map (· ++ "\n"))

end StateGraph

end ProcessNet
