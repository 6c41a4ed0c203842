/-
RON as a document format. Records and pairs stand in parentheses, an alternative with a value is
its name with the value in parentheses, and optional values are `None` and `Some`.
-/
import ProcessNet.Format.Document
import ProcessNet.Format.Ron.Basic

namespace ProcessNet.Ron

instance : DocumentWriter Ron where
  ofBool := .bool
  ofNat n := ofInt n
  ofText s := .text s.toList
  absent := .absent
  present := .present
  ofList := .list
  ofPair a b := .group none [a, b]
  ofFields l := .record none (l.map fun (n, v) => (n.toList, v))
  bare name := .word name.toList
  holding name v := .group (some name.toList) [v]
  holdingFields name l := .record (some name.toList) (l.map fun (n, v) => (n.toList, v))
  ofNumbered l := .table (l.map fun (n, v) => (ofInt n, v))
  ofNamed l := .table (l.map fun (s, v) => (.text s.toList, v))

/-- A value within a document. -/
structure Part where
  value : Ron
  /-- The levels of nesting that are open around the value. -/
  depth : Nat
  /-- What the document turned on. -/
  extensions : Extensions
  /-- Whether a record has its fields right between the parentheses of the value around it. -/
  unwrapped : Bool := false

namespace Part

/-- The whole value of a document. -/
def whole (found : Extensions × Ron) : Part where
  value := found.2
  depth := 0
  extensions := found.1

/-- A value inside, `levels` further in. -/
def inner (p : Part) (levels : Nat) (v : Ron) : Part where
  value := v
  depth := p.depth + levels
  extensions := p.extensions

def toBool? (p : Part) : Option Bool :=
  match p.value with
  | .bool b => some b
  | _ => none

/-- A suffix has to name the very type that is asked for. -/
def toUnsigned? (bits : Nat) (p : Part) : Option Nat :=
  match p.value with
  | .integer (.ofNat n) suffix =>
    if fits bits n ∧ suffix.all (· = ⟨false, bits⟩) then some n else none
  | _ => none

def toText? (p : Part) : Option String :=
  match p.value with
  | .text cs => some (String.ofList cs)
  | _ => none

def toOption? (p : Part) : Option (Option Part) :=
  let e := p.extensions
  match p.value with
  | .absent => some none
  | .present v => some (some { p.inner 1 v with unwrapped := e.unwrapVariants })
  | .presentBare v => if e.implicitSome then some (some (p.inner 1 v)) else none
  | .presentFields l =>
    if e.unwrapVariants then some (some { p.inner 1 (.presentFields l) with unwrapped := true })
    else none
  | .presentItems _ => none
  | v => if e.implicitSome then some (some (p.inner 1 v)) else none

def toList? (p : Part) : Option (List Part) :=
  match p.value with
  | .list items => some (items.map (p.inner 2))
  | _ => none

def toPair? (p : Part) : Option (Part × Part) :=
  match p.value with
  | .group none [a, b] => some (p.inner 2 a, p.inner 2 b)
  | _ => none

/-- Whether the name in front of a record is the right one; it may be missing unless names are
asked for. -/
def bearsName (p : Part) (name : String) : Option (List Char) → Bool
  | some own => own = name.toList
  | none => !p.extensions.explicitNames

/-- Whether the value may stand where nobody asks for it. -/
def isIgnorable (p : Part) : Bool :=
  match p.value.depth? p.extensions with
  | some d => p.depth + d ≤ maxDepth
  | none => false

/-- The asked fields among named values; the others have to be ignorable. -/
def select? (p : Part) (fields : List String) (found : List (List Char × Ron)) :
    Option (Fields Part) :=
  let parts := found.map fun (n, v) => (String.ofList n, p.inner 2 v)
  if parts.all fun (n, part) => fields.contains n || part.isIgnorable then
    Fields.ofNamed? fields parts
  else none

/-- The named fields of a record. -/
def toFields? (name : String) (fields : List String) (p : Part) : Option (Fields Part) :=
  match p.unwrapped, p.value with
  | true, .presentFields l => p.select? fields l
  | false, .record own l => if p.bearsName name own then p.select? fields l else none
  | false, .group own [] => if p.bearsName name own then some ⟨true, []⟩ else none
  | false, .unit => if p.bearsName name none then some ⟨true, []⟩ else none
  | _, _ => none

def toChoice? (p : Part) : Option (Choice Part) :=
  match p.value with
  | .word cs => some (.bare (String.ofList cs))
  | .group (some cs) [v] => some (.holding (String.ofList cs) (p.inner 2 v))
  | .record (some cs) l => some (.holding (String.ofList cs) (p.inner 2 (.record none l)))
  | _ => none

/-- The entries of a table, the key of each read by `decode`. -/
def toEntries? {α : Type} (decode : Part → Option α) (p : Part) : Option (List (α × Part)) :=
  match p.value with
  | .table entries => entries.mapM fun (k, v) => (decode (p.inner 2 k)).map (·, p.inner 2 v)
  | _ => none

end Part

instance : DocumentReader Part where
  toBool? := Part.toBool?
  toUnsigned? := Part.toUnsigned?
  toText? := Part.toText?
  toOption? := Part.toOption?
  toList? := Part.toList?
  toPair? := Part.toPair?
  toFields? := Part.toFields?
  toChoice? := Part.toChoice?
  isEmpty _ := false
  toNumbered? bits := Part.toEntries? (Part.toUnsigned? bits)
  toNamed? := Part.toEntries? Part.toText?

end ProcessNet.Ron
