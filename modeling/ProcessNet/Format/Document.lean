/-
Documents: what the formats have in common. A type of document values that can be written and
taken apart is described by two classes; the encoding of nets and settings is stated over them
once, and each format supplies its own instances.
-/

namespace ProcessNet

/-- The choice among named alternatives that a document value makes. -/
inductive Choice (τ : Type) where
  /-- The bare name of an alternative. -/
  | bare (name : String)
  /-- An alternative with a value. -/
  | holding (name : String) (value : τ)

/-- The values found for the fields of a record. -/
structure Fields (τ : Type) where
  /-- Whether the values stood behind names; otherwise they stood in the order of the fields. -/
  named : Bool
  /-- At most one value for each field, in no particular order. -/
  values : List (String × τ)

/-- Values of a format that can be built. -/
class DocumentWriter (τ : Type) where
  ofBool : Bool → τ
  ofNat : Nat → τ
  ofText : String → τ
  /-- An optional value that is absent. -/
  absent : τ
  /-- An optional value that is there. -/
  present : τ → τ
  ofList : List τ → τ
  ofPair : τ → τ → τ
  /-- A record with its fields in order. -/
  ofFields : List (String × τ) → τ
  /-- A named alternative without a value. -/
  bare : String → τ
  /-- A named alternative with a value. -/
  holding : String → τ → τ
  /-- A named alternative with a record of its own. -/
  holdingFields : String → List (String × τ) → τ
  /-- A table from numbers. -/
  ofNumbered : List (Nat × τ) → τ
  /-- A table from texts. -/
  ofNamed : List (String × τ) → τ

/-- Values of a format that can be taken apart. -/
class DocumentReader (τ : Type) where
  toBool? : τ → Option Bool
  /-- A whole number that is not negative and takes at most so many bits. -/
  toUnsigned? : (bits : Nat) → τ → Option Nat
  toText? : τ → Option String
  toOption? : τ → Option (Option τ)
  toList? : τ → Option (List τ)
  toPair? : τ → Option (τ × τ)
  /-- The fields of a record; it may bear its name and bring fields that are not asked for, but no
  field twice. -/
  toFields? : (name : String) → (fields : List String) → τ → Option (Fields τ)
  toChoice? : τ → Option (Choice τ)
  /-- Whether the value may stand with an alternative that holds none. -/
  isEmpty : τ → Bool
  /-- A table from numbers that take at most so many bits. -/
  toNumbered? : (bits : Nat) → τ → Option (List (Nat × τ))
  toNamed? : τ → Option (List (String × τ))

/-- Whether a number takes at most so many bits. -/
def fits (bits n : Nat) : Bool := n < Nat.pow 2 bits

namespace Fields

variable {τ α : Type}

/-- The values of the asked fields out of those found behind names: none may occur twice. -/
def ofNamed? (fields : List String) (found : List (String × τ)) : Option (Fields τ) :=
  let known := found.filter (fields.contains ·.1)
  if (known.map (·.1)).Nodup then some ⟨true, known⟩ else none

/-- Values that stand in the order of the fields; there may not be more than fields. -/
def ofOrdered? (fields : List String) (found : List τ) : Option (Fields τ) :=
  if found.length ≤ fields.length then some ⟨false, fields.zip found⟩ else none

def get? (r : Fields τ) (field : String) : Option τ := r.values.lookup field

/-- A field that has to be there. -/
def required? (r : Fields τ) (field : String) (decode : τ → Option α) : Option α :=
  (r.get? field).bind decode

/-- A field with a value to take where it is missing. -/
def withDefault? (r : Fields τ) (field : String) (default : α) (decode : τ → Option α) : Option α :=
  match r.get? field with
  | some v => decode v
  | none => some default

/-- A field whose value is optional: among named fields it may also be missing. -/
def optional? [DocumentReader τ] (r : Fields τ) (field : String) (decode : τ → Option α) :
    Option (Option α) :=
  match r.get? field with
  | some v =>
    match DocumentReader.toOption? v with
    | none => none
    | some none => some none
    | some (some v) => (decode v).map some
  | none => if r.named then some none else none

end Fields

namespace DocumentReader

variable {τ α : Type} [DocumentReader τ]

/-- A list, each item read by `decode`. -/
def toListOf? (decode : τ → Option α) (v : τ) : Option (List α) :=
  (toList? v).bind (·.mapM decode)

/-- The bare alternative among `all` that the value names. -/
def toOneOf? (name : α → String) (all : List α) (v : τ) : Option α :=
  match toChoice? v with
  | some (.bare n) => all.find? (name · = n)
  | some (.holding n v) => if isEmpty v then all.find? (name · = n) else none
  | none => none

end DocumentReader

end ProcessNet
