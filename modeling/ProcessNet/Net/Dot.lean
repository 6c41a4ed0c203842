/-
Nets as graph descriptions in the DOT language: places are circles that show their tokens, with a
double line where the final marking wants some; transitions are boxes, black when silent.
-/
import ProcessNet.Marking.Basic
import ProcessNet.Net.Basic

namespace ProcessNet.Net

/-- A text within the quotes of a label. -/
def escapeLabel (s : String) : String :=
  String.ofList <| s.toList.flatMap fun c =>
    if c = '"' then ['\\', '"']
    else if c = '\\' then ['\\', '\\']
    else if c = '\n' then ['\\', 'n']
    else [c]

/-- The most bytes that a text can have. -/
def maxTextSize : Nat := Nat.pow 2 63 - 1

/-- One dot for each token. A dot takes three bytes. -/
def tokenDots (k : Nat) : Except Fault String :=
  if 3 * k ≤ maxTextSize then .ok (String.ofList (List.replicate k '●')) else .error .textTooLong

def dotOfPlace (initial final : Marking) (p : PlaceId) (place : Place) : Except Fault String := do
  let k := initial.tokens p
  let dots ← tokenDots k
  let label := escapeLabel place.name ++ if 0 < k then "\\n" ++ dots else ""
  let peripheries := if final.contains p then 2 else 1
  return s!"    place_{p.number} [label=\"{label}\", shape=circle, peripheries={peripheries}];"

def dotOfTransition (t : TransitionId) (transition : Transition) : String :=
  let (label, fill) := match transition.label with
    | some label => (escapeLabel label, "#ffffff")
    | none => ("", "#000000")
  s!"    trans_{t.number} [label=\"{label}\", shape=box, style=filled, fillcolor=\"{fill}\"];"

def dotOfArc (a : Arc) : String :=
  let place := s!"place_{a.place.number}"
  let transition := s!"trans_{a.transition.number}"
  match a.kind with
  | .input => s!"    {place} -> {transition};"
  | .output => s!"    {transition} -> {place};"
  | .reset => s!"    {place} -> {transition} [style=dashed, arrowhead=normalnormal];"
  | .inhibitor => s!"    {place} -> {transition} [arrowhead=odot];"

/-- The graph description of the net with its markings. -/
def toDot (n : Net) (initial final : Marking) : Except Fault String := do
  let places ← n.livePlaces.mapM fun (p, place) => dotOfPlace initial final p place
  let lines := ["digraph ResetNet \x7b", "    rankdir=LR;", "    node [fontname=\"Helvetica\"];"]
    ++ places
    ++ n.liveTransitions.map (fun (t, transition) => dotOfTransition t transition)
    ++ n.arcs.map dotOfArc
    ++ ["\x7d"]
  return String.join (lines.map (· ++ "\n"))

end ProcessNet.Net
