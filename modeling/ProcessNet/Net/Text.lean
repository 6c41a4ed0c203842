/-
Markings and nets as texts for reading.
-/
import ProcessNet.Marking.Basic
import ProcessNet.Net.Basic

namespace ProcessNet

/-- The entries of the marking by place. -/
def Marking.inspect (m : Marking) : String :=
  Text.braced (m.entries.map fun (p, k) => s!"{Identifier.text p}: {k}")

/-- Names come in their order, and counts of one name in theirs. -/
def nameThenCount (a b : String × Nat) : Bool := a.1 < b.1 || a.1 = b.1 && a.2 ≤ b.2

/-- The counts behind the names of their places, in the order of the names, so that the text does
not depend on the identifiers. -/
def Marking.text (m : Marking) (n : Net) : String :=
  let entries := (m.entries.map fun (p, k) => (n.placeName p, k)).mergeSort nameThenCount
  Text.bracketed (entries.map fun (name, k) => s!"{name}:{k}")

/-- All parts of the net but its name indices. -/
def Net.inspect (n : Net) : String :=
  let place := fun (p, x) => Text.applied "" [Identifier.text p, Place.text x]
  let transition := fun (t, x) => Text.applied "" [Identifier.text t, Transition.text x]
  Text.record "Net"
    [("name", Text.literal n.name),
      ("places", Text.bracketed (n.livePlaces.map place)),
      ("transitions", Text.bracketed (n.liveTransitions.map transition)),
      ("arcs", n.incidence.text)]

end ProcessNet
