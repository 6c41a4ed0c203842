/-
TOML values, and tables that remember how they came about: a table may be opened by one header
only, keys with dots put their values only into tables that came about by such keys, and an inline
table is closed.
-/

namespace ProcessNet

/-- How a table came about. -/
inductive TableOrigin where
  /-- As the parent of a table with a header. -/
  | implied
  /-- By a header of its own. -/
  | headed
  /-- By a key with dots. -/
  | dotted
  /-- Between braces. -/
  | inline
deriving DecidableEq, Repr

/-- A TOML value. -/
inductive Toml where
  | bool (value : Bool)
  | integer (value : Int)
  /-- A number with a fraction or a power of ten: `mantissa * 10 ^ power`. -/
  | decimal (mantissa power : Int)
  /-- A number that digits cannot spell. -/
  | special (spelling : List Char)
  /-- A date, a time or both. -/
  | moment (spelling : List Char)
  | text (value : String)
  | array (items : List Toml)
  /-- Tables that were opened one by one, in order. -/
  | tables (items : List Toml)
  | table (origin : TableOrigin) (entries : List (String × Toml))
deriving Inhabited

namespace Toml

/-- The least number that is too large for a number of 64 bits with a point: half a step past the
largest one. -/
def overflowBound : Nat := Nat.pow 2 1024 - Nat.pow 2 970

/-- Whether `mantissa * 10 ^ power` is small enough for a number of 64 bits with a point. The number
of digits settles it unless the bound is near. -/
def isFinite (mantissa power : Int) : Bool :=
  let digits := (Nat.toDigits 10 mantissa.natAbs).length
  if mantissa = 0 ∨ digits + power ≤ 300 then true
  else if digits + power > 400 then false
  else mantissa.natAbs * Nat.pow 10 power.toNat < overflowBound * Nat.pow 10 (-power).toNat

/-- Replaces the entry of a key, or adds it behind the others. -/
def put (key : String) (v : Toml) : List (String × Toml) → List (String × Toml)
  | [] => [(key, v)]
  | (k, w) :: l => if k = key then (key, v) :: l else (k, w) :: put key v l

/-- Adds the entry of a key and its value to a table. The inner tables of a key with dots are found
or made on the way. The way may lead through the parent of a table with a header and the last of a
row of tables, but the last table on it has to come about by dots. -/
def assign? (entries : List (String × Toml)) (v : Toml) :
    List String → Option (List (String × Toml))
  | [] => none
  | [key] =>
    if (entries.lookup key).isSome then none else some (put key v entries)
  | key :: next :: path =>
    match entries.lookup key with
    | none => (assign? [] v (next :: path)).map fun l => put key (.table .dotted l) entries
    | some (.table .dotted inner) =>
      (assign? inner v (next :: path)).map fun l => put key (.table .dotted l) entries
    | some (.table .implied inner) =>
      if path.isEmpty then none
      else (assign? inner v (next :: path)).map fun l => put key (.table .implied l) entries
    | some (.tables items) =>
      match items.getLast? with
      | some (.table origin inner) =>
        if path.isEmpty then none
        else
          (assign? inner v (next :: path)).map fun l =>
            put key (.tables (items.dropLast ++ [.table origin l])) entries
      | _ => none
    | some _ => none

/-- Changes the table at a path of headers, and the last of a row of tables on the way. -/
def atHeader? (change : List (String × Toml) → Option (List (String × Toml)))
    (entries : List (String × Toml)) : List String → Option (List (String × Toml))
  | [] => change entries
  | key :: path =>
    match entries.lookup key with
    | none => (atHeader? change [] path).map fun l => put key (.table .implied l) entries
    | some (.table .inline _) => none
    | some (.table origin inner) =>
      (atHeader? change inner path).map fun l => put key (.table origin l) entries
    | some (.tables items) =>
      match items.getLast? with
      | some (.table origin inner) =>
        (atHeader? change inner path).map fun l =>
          put key (.tables (items.dropLast ++ [.table origin l])) entries
      | _ => none
    | some _ => none

/-- Opens the table with the given header. -/
def openTable? (root : List (String × Toml)) (header : List String) :
    Option (List (String × Toml)) :=
  match header.getLast? with
  | none => none
  | some key =>
    atHeader? (fun entries =>
      match entries.lookup key with
      | none => some (put key (.table .headed []) entries)
      | some (.table .implied inner) => some (put key (.table .headed inner) entries)
      | some _ => none) root header.dropLast

/-- Opens one more table in the row with the given header. -/
def openNextTable? (root : List (String × Toml)) (header : List String) :
    Option (List (String × Toml)) :=
  match header.getLast? with
  | none => none
  | some key =>
    atHeader? (fun entries =>
      match entries.lookup key with
      | none => some (put key (.tables [.table .headed []]) entries)
      | some (.tables items) => some (put key (.tables (items ++ [.table .headed []])) entries)
      | some _ => none) root header.dropLast

/-! ## Limits -/

/-- The most arrays and inline tables around each other, and the most parts of a key. -/
def maxNesting : Nat := 80

mutual

/-- How many arrays and inline tables lie around each other in the value. -/
def nesting : Toml → Nat
  | .array items => nestingItems items + 1
  | .tables items => nestingItems items
  | .table .inline entries => nestingEntries entries + 1
  | .table _ entries => nestingEntries entries
  | _ => 0

def nestingItems : List Toml → Nat
  | [] => 0
  | v :: l => max (nesting v) (nestingItems l)

def nestingEntries : List (String × Toml) → Nat
  | [] => 0
  | (_, v) :: l => max (nesting v) (nestingEntries l)

end

mutual

/-- Whether every number in the value is small enough to be stored. -/
def isStorable : Toml → Bool
  | .integer (.ofNat n) => n < Nat.pow 2 128
  | .integer (.negSucc n) => n < Nat.pow 2 127
  | .decimal mantissa power => isFinite mantissa power
  | .array items | .tables items => areStorable items
  | .table _ entries => entriesAreStorable entries
  | _ => true

def areStorable : List Toml → Bool
  | [] => true
  | v :: l => isStorable v && areStorable l

def entriesAreStorable : List (String × Toml) → Bool
  | [] => true
  | (_, v) :: l => isStorable v && entriesAreStorable l

end

end Toml

end ProcessNet
