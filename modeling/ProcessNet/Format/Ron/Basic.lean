/-
RON values: words, numbers, texts, optional values, lists, tables, and groups or records in
parentheses that may bear a name.
-/

namespace ProcessNet

/-- A type of whole numbers, as the suffix of a number names it. -/
structure Ron.IntegerType where
  signed : Bool
  bits : Nat
deriving DecidableEq, Repr, Inhabited

/-- A RON value. -/
inductive Ron where
  | bool (value : Bool)
  /-- The word `None`. -/
  | absent
  /-- The word `Some` and a value in parentheses. -/
  | present (value : Ron)
  /-- The word `Some` and a value that has no parentheses around it. -/
  | presentBare (value : Ron)
  /-- The word `Some` and named fields right between its parentheses. -/
  | presentFields (fields : List (List Char × Ron))
  /-- The word `Some` and no value or several ones right between its parentheses. -/
  | presentItems (items : List Ron)
  /-- A name that stands alone. -/
  | word (name : List Char)
  /-- A whole number, perhaps with a suffix. -/
  | integer (value : Int) (suffix : Option Ron.IntegerType)
  /-- A number with a fraction or a power of ten, or too large for a whole one, as spelled. -/
  | real (spelling : List Char)
  | character (value : Char)
  | text (value : List Char)
  | bytes (value : List UInt8)
  /-- Two parentheses and nothing between them. -/
  | unit
  | list (items : List Ron)
  | table (entries : List (Ron × Ron))
  /-- Values in parentheses, perhaps behind a name. -/
  | group (name : Option (List Char)) (items : List Ron)
  /-- Named fields in parentheses, perhaps behind a name. -/
  | record (name : Option (List Char)) (fields : List (List Char × Ron))
deriving Inhabited

namespace Ron

/-- What the attributes in front of a text can turn on. -/
structure Extensions where
  /-- An optional value that is there needs no `Some`. -/
  implicitSome : Bool := false
  /-- A record has to bear its name. -/
  explicitNames : Bool := false
  /-- The fields of a record and the items of a group stand right between the parentheses of
  `Some`. -/
  unwrapVariants : Bool := false
deriving DecidableEq, Repr, Inhabited

/-- A whole number of its natural type. -/
def ofInt (n : Int) : Ron := .integer n none

/-! ## Depth -/

/-- How many levels of nesting may be open at a time. -/
def maxDepth : Nat := 128

mutual

/-- The levels of nesting within a value that nobody asks for, unless the value uses what is not
turned on: behind `Some` one value has parentheses around it, and the fields of a record and the
items of a group have parentheses of their own. -/
def depth? (e : Extensions) : Ron → Option Nat
  | .present v => (depth? e v).map (· + 1)
  | .presentBare v => if e.implicitSome then (depth? e v).map (· + 1) else none
  | .presentFields fields =>
    if e.unwrapVariants then (depthFields? e fields).map (· + 2) else none
  | .presentItems items => if e.unwrapVariants then (depthItems? e items).map (· + 2) else none
  | .list items | .group _ items => (depthItems? e items).map (· + 1)
  | .table entries => (depthEntries? e entries).map (· + 1)
  | .record _ fields => (depthFields? e fields).map (· + 1)
  | _ => some 0

def depthItems? (e : Extensions) : List Ron → Option Nat
  | [] => some 0
  | v :: l => do return max ((← depth? e v) + 1) (← depthItems? e l)

def depthEntries? (e : Extensions) : List (Ron × Ron) → Option Nat
  | [] => some 0
  | (k, v) :: l => do
    return max (max (← depth? e k) (← depth? e v) + 1) (← depthEntries? e l)

def depthFields? (e : Extensions) : List (List Char × Ron) → Option Nat
  | [] => some 0
  | (_, v) :: l => do return max ((← depth? e v) + 1) (← depthFields? e l)

end

end Ron

end ProcessNet
