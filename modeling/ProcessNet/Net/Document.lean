/-
Accepting nets as documents: every part of the net is written, the rows and the name indices
included, and a document is read part by part without asking whether the parts agree.
-/
import ProcessNet.Format.Document
import ProcessNet.Net.Accepting

namespace ProcessNet

open DocumentReader DocumentWriter

variable {τ : Type}

/-! ## Identifiers and counts -/

def toId? {ι : Type} [Identifier ι] [DocumentReader τ] (v : τ) : Option ι :=
  (toUnsigned? Identifier.bits v).map Identifier.ofIndex

def ofId {ι : Type} [Identifier ι] [DocumentWriter τ] (i : ι) : τ := ofNat (Identifier.index i)

/-! ## Nodes -/

namespace PlaceRole

def encode [DocumentWriter τ] (r : PlaceRole) : τ :=
  match r.event? with
  | some e => holding r.name (ofText e)
  | none => bare r.name

/-- The role of the given name for an end event. -/
def ofEvent? (name event : String) : Option PlaceRole :=
  [PlaceRole.error event, .cancel event, .message event, .terminate event].find? (·.name = name)

def decode? [DocumentReader τ] (v : τ) : Option PlaceRole :=
  match toChoice? v with
  | some (.bare n) => plain.find? (·.name = n)
  | some (.holding n v) =>
    match plain.find? (·.name = n) with
    | some r => if isEmpty v then some r else none
    | none => (toText? v).bind (ofEvent? n)
  | none => none

end PlaceRole

namespace Place

def fields : List String := ["name", "role", "process"]

def encode [DocumentWriter τ] (p : Place) : τ :=
  ofFields [("name", ofText p.name), ("role", p.role.encode), ("process", ofText p.process)]

def decode? [DocumentReader τ] (v : τ) : Option Place := do
  let r ← toFields? "Place" fields v
  let name ← r.required? "name" toText?
  let role ← r.required? "role" PlaceRole.decode?
  let process ← r.required? "process" toText?
  return { name, role, process }

end Place

namespace Transition

def fields : List String := ["name", "label", "process"]

def encode [DocumentWriter τ] (t : Transition) : τ :=
  ofFields
    [("name", ofText t.name),
      ("label", match t.label with
        | some l => present (ofText l)
        | none => absent),
      ("process", ofText t.process)]

def decode? [DocumentReader τ] (v : τ) : Option Transition := do
  let r ← toFields? "Transition" fields v
  let name ← r.required? "name" toText?
  let label ← r.optional? "label" toText?
  let process ← r.required? "process" toText?
  return { name, label, process }

end Transition

/-! ## Arcs -/

namespace ArcKind

def encode [DocumentWriter τ] (k : ArcKind) : τ := bare k.name

def decode? [DocumentReader τ] (v : τ) : Option ArcKind := toOneOf? ArcKind.name ArcKind.all v

end ArcKind

namespace Arc

def fields : List String := ["place", "transition", "kind"]

def encode [DocumentWriter τ] (a : Arc) : τ :=
  ofFields [("place", ofId a.place), ("transition", ofId a.transition), ("kind", a.kind.encode)]

def decode? [DocumentReader τ] (v : τ) : Option Arc := do
  let r ← toFields? "Arc" fields v
  let place ← r.required? "place" toId?
  let transition ← r.required? "transition" toId?
  let kind ← r.required? "kind" ArcKind.decode?
  return { place, transition, kind }

end Arc

namespace Incidence

def encodeRow {ι : Type} [Identifier ι] [DocumentWriter τ] (row : List (ι × ArcKind)) : τ :=
  ofList (row.map fun (i, kind) => ofPair (ofId i) kind.encode)

def decodeRow? {ι : Type} [Identifier ι] [DocumentReader τ] (v : τ) :
    Option (List (ι × ArcKind)) :=
  toListOf? (fun v => do
    let (i, kind) ← toPair? v
    return (← toId? i, ← ArcKind.decode? kind)) v

def fields : List String := ["arcs", "by_place", "by_transition"]

def encode [DocumentWriter τ] (inc : Incidence) : τ :=
  ofFields
    [("arcs", ofList (inc.arcs.map Arc.encode)),
      ("by_place", ofList (inc.byPlace.items.map encodeRow)),
      ("by_transition", ofList (inc.byTransition.items.map encodeRow))]

/-- An arc that occurs again does not count. -/
def decode? [DocumentReader τ] (v : τ) : Option Incidence := do
  let r ← toFields? "Incidence" fields v
  let arcs ← r.required? "arcs" (toListOf? Arc.decode?)
  let byPlace ← r.required? "by_place" (toListOf? decodeRow?)
  let byTransition ← r.required? "by_transition" (toListOf? decodeRow?)
  return { arcs := arcs.eraseDups, byPlace := ⟨byPlace⟩, byTransition := ⟨byTransition⟩ }

end Incidence

/-! ## Nets and markings -/

namespace NameIndex

variable {ι : Type} [Identifier ι]

def encode [DocumentWriter τ] (x : NameIndex ι) : τ :=
  ofNamed (x.entries.map fun (name, i) => (name, ofId i))

def decode? [DocumentReader τ] (v : τ) : Option (NameIndex ι) := do
  let l ← toNamed? v
  return ofList (← l.mapM fun (name, v) => (toId? v).map (name, ·))

end NameIndex

namespace Net

def fields : List String :=
  ["name", "places", "transitions", "arcs", "place_names", "transition_names"]

/-- A slot is an optional node. -/
def encodeSlot {α : Type} [DocumentWriter τ] (encode : α → τ) : Option α → τ
  | some x => present (encode x)
  | none => absent

def decodeSlot? {α : Type} [DocumentReader τ] (decode : τ → Option α) (v : τ) :
    Option (Option α) :=
  match toOption? v with
  | none => none
  | some none => some none
  | some (some v) => (decode v).map some

def encode [DocumentWriter τ] (n : Net) : τ :=
  ofFields
    [("name", ofText n.name),
      ("places", ofList (n.places.items.map (encodeSlot Place.encode))),
      ("transitions", ofList (n.transitions.items.map (encodeSlot Transition.encode))),
      ("arcs", n.incidence.encode),
      ("place_names", n.placeNames.encode),
      ("transition_names", n.transitionNames.encode)]

def decode? [DocumentReader τ] (v : τ) : Option Net := do
  let r ← toFields? "Net" fields v
  let name ← r.required? "name" toText?
  let places ← r.required? "places" (toListOf? (decodeSlot? Place.decode?))
  let transitions ← r.required? "transitions" (toListOf? (decodeSlot? Transition.decode?))
  let incidence ← r.required? "arcs" Incidence.decode?
  let placeNames ← r.required? "place_names" NameIndex.decode?
  let transitionNames ← r.required? "transition_names" NameIndex.decode?
  return {
    name, places := ⟨places⟩, transitions := ⟨transitions⟩, incidence, placeNames, transitionNames }

end Net

namespace Marking

def encode [DocumentWriter τ] (m : Marking) : τ :=
  ofNumbered (m.entries.map fun (p, k) => (p.number, ofNat k))

/-- Zeros are stored as they stand; of several counts for one place the last one is kept. -/
def decode? [DocumentReader τ] (v : τ) : Option Marking := do
  let l ← toNumbered? Identifier.bits v
  let l ← l.mapM fun (p, v) => (toUnsigned? countBits v).map (PlaceId.mk p, ·)
  return l.foldl (fun m (p, k) => m.store p k) ∅

end Marking

namespace AcceptingNet

def fields : List String := ["net", "initial_marking", "final_marking"]

def encode [DocumentWriter τ] (a : AcceptingNet) : τ :=
  ofFields
    [("net", a.net.encode), ("initial_marking", a.initial.encode),
      ("final_marking", a.final.encode)]

def decode? [DocumentReader τ] (v : τ) : Option AcceptingNet := do
  let r ← toFields? "AcceptingNet" fields v
  let net ← r.required? "net" Net.decode?
  let initial ← r.required? "initial_marking" Marking.decode?
  let final ← r.required? "final_marking" Marking.decode?
  return { net, initial, final }

end AcceptingNet

end ProcessNet
