/-
Reading JSON. The readers take a value off the front of a text and answer the rest; the number of
characters left bounds their depth.
-/
import ProcessNet.Format.Json.Basic

namespace ProcessNet.Json

/-- Blanks between tokens. -/
def isBlank (c : Char) : Bool := c == ' ' || c == '\n' || c == '\t' || c == '\r'

def skipBlanks (cs : List Char) : List Char := cs.dropWhile isBlank

/-- Takes a fixed word off the front. -/
def word? : List Char → List Char → Option (List Char)
  | [], cs => some cs
  | w :: ws, c :: cs => if w = c then word? ws cs else none
  | _ :: _, [] => none

/-- Takes a run of digits off the front, at least one. -/
def digitRun? (cs : List Char) : Option (List Char × List Char) :=
  match cs.span Char.isDigit with
  | ([], _) => none
  | run => some run

/-- The whole part of a number: no zero in front of other digits. -/
def wholePart? (cs : List Char) : Option (List Char × List Char) :=
  match digitRun? cs with
  | none => none
  | some ('0' :: _ :: _, _) => none
  | some run => some run

/-- The part behind the point, if there is one. -/
def fraction? : List Char → Option (List Char × List Char)
  | '.' :: cs => (digitRun? cs).map fun (ds, rest) => ('.' :: ds, rest)
  | cs => some ([], cs)

/-- The power of ten, if there is one. -/
def exponent? (cs : List Char) : Option (List Char × List Char) :=
  match cs with
  | e :: rest =>
    if e = 'e' ∨ e = 'E' then
      match rest with
      | s :: rest' =>
        if s = '+' ∨ s = '-' then (digitRun? rest').map fun (ds, rest) => (e :: s :: ds, rest)
        else (digitRun? rest).map fun (ds, rest) => (e :: ds, rest)
      | [] => none
    else some ([], cs)
  | [] => some ([], [])

/-- Takes a number off the front. -/
def number? (cs : List Char) : Option (List Char × List Char) := do
  let (sign, cs) := match cs with
    | '-' :: cs => (['-'], cs)
    | cs => ([], cs)
  let (whole, cs) ← wholePart? cs
  let (frac, cs) ← fraction? cs
  let (exp, cs) ← exponent? cs
  return (sign ++ whole ++ frac ++ exp, cs)

/-- Takes the rest of a string off the front, behind its opening quote. Escapes have to be
complete, but they need not stand for a character. -/
def stringRest? : List Char → Option (List Char × List Char)
  | [] => none
  | '"' :: cs => some ([], cs)
  | '\\' :: 'u' :: a :: b :: c :: d :: cs =>
    if (hexQuad? a b c d).isSome then
      (stringRest? cs).map fun (s, rest) => ('\\' :: 'u' :: a :: b :: c :: d :: s, rest)
    else none
  | '\\' :: c :: cs =>
    if (unescapeMark? c).isSome then
      (stringRest? cs).map fun (s, rest) => ('\\' :: c :: s, rest)
    else none
  | c :: cs =>
    if c = '\\' ∨ c.toNat < 0x20 then none
    else (stringRest? cs).map fun (s, rest) => (c :: s, rest)

mutual

/-- Takes a value off the front. -/
def value? : Nat → List Char → Option (Json × List Char)
  | 0, _ => none
  | fuel + 1, cs =>
    match skipBlanks cs with
    | [] => none
    | 'n' :: rest => (word? ['u', 'l', 'l'] rest).map (.null, ·)
    | 't' :: rest => (word? ['r', 'u', 'e'] rest).map (.bool true, ·)
    | 'f' :: rest => (word? ['a', 'l', 's', 'e'] rest).map (.bool false, ·)
    | '"' :: rest => (stringRest? rest).map fun (s, rest) => (.string s, rest)
    | '[' :: rest =>
      match skipBlanks rest with
      | ']' :: rest => some (.array [], rest)
      | rest => (items? fuel rest).map fun (l, rest) => (.array l, rest)
    | '\x7b' :: rest =>
      match skipBlanks rest with
      | '\x7d' :: rest => some (.object [], rest)
      | rest => (members? fuel rest).map fun (l, rest) => (.object l, rest)
    | rest => (number? rest).map fun (n, rest) => (.number n, rest)

/-- Takes the items of an array off the front, up to its closing bracket. -/
def items? : Nat → List Char → Option (List Json × List Char)
  | 0, _ => none
  | fuel + 1, cs =>
    match value? fuel cs with
    | none => none
    | some (v, rest) =>
      match skipBlanks rest with
      | ']' :: rest => some ([v], rest)
      | ',' :: rest => (items? fuel rest).map fun (l, rest) => (v :: l, rest)
      | _ => none

/-- Takes the members of an object off the front, up to its closing brace. -/
def members? : Nat → List Char → Option (List (List Char × Json) × List Char)
  | 0, _ => none
  | fuel + 1, cs =>
    match skipBlanks cs with
    | '"' :: rest =>
      match stringRest? rest with
      | none => none
      | some (key, rest) =>
        match skipBlanks rest with
        | ':' :: rest =>
          match value? fuel rest with
          | none => none
          | some (v, rest) =>
            match skipBlanks rest with
            | '\x7d' :: rest => some ([(key, v)], rest)
            | ',' :: rest => (members? fuel rest).map fun (l, rest) => ((key, v) :: l, rest)
            | _ => none
        | _ => none
    | _ => none

end

/-- The value that the text begins with, and whether it holds nothing else. -/
def first? (s : String) : Option (Json × Bool) :=
  let cs := s.toList
  (value? (cs.length + 1) cs).map fun (v, rest) => (v, (skipBlanks rest).isEmpty)

/-- The value that the text holds, if it holds one value and nothing else. -/
def parse? (s : String) : Option Json :=
  match first? s with
  | some (v, true) => some v
  | _ => none

end ProcessNet.Json
