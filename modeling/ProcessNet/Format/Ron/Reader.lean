/-
Reading RON: attributes in front, then one value. Blanks and comments may stand between any two
tokens, and a comma may follow the last item. The number of characters left bounds the depth of the
readers.
-/
import ProcessNet.Format.Ron.Blank
import ProcessNet.Format.Ron.Number
import ProcessNet.Format.Ron.Text

namespace ProcessNet.Ron

/-! ## Values without parts -/

/-- The words with a meaning of their own. -/
def constants : List (String × Ron) :=
  [("true", .bool true), ("false", .bool false), ("None", .absent)]

/-- Takes a word with a meaning of its own, or two parentheses with nothing between them, off the
front. -/
def constant? (cs : List Char) : Option (Ron × List Char) :=
  match cs with
  | '(' :: ')' :: rest => some (.unit, rest)
  | cs =>
    (constants.findSome? fun (w, v) => (word? w cs).map (v, ·)).orElse fun _ => realWord? cs

/-- Takes a text, bytes, a character or a number off the front. -/
def literal? : List Char → Option (Ron × List Char)
  | '"' :: cs => (textRest? (cs.length + 1) cs).map fun (s, rest) => (.text s, rest)
  | 'r' :: cs => (raw? cs).map fun (s, rest) => (.text s, rest)
  | 'b' :: '\'' :: cs =>
    (byteLiteral? cs).map fun (b, rest) => (.integer b.toNat (some ⟨false, 8⟩), rest)
  | 'b' :: '"' :: cs => (bytesRest? (cs.length + 1) cs).map fun (bs, rest) => (.bytes bs, rest)
  | 'b' :: 'r' :: cs =>
    (raw? cs).map fun (s, rest) => (.bytes (s.flatMap String.utf8EncodeChar), rest)
  | '\'' :: cs => (character? cs).map fun (c, rest) => (.character c, rest)
  | cs => number? cs

/-! ## Values -/

/-- Takes the name of a field and its colon off the front. -/
def field? (cs : List Char) : Option (List Char × List Char) := do
  let (n, rest) ← name? cs
  match ← skipBlanks? rest with
  | ':' :: rest => some (n, rest)
  | _ => none

mutual

/-- Takes a value off the front. -/
def value? : Nat → List Char → Option (Ron × List Char)
  | 0, _ => none
  | fuel + 1, cs =>
    match skipBlanks? cs with
    | none => none
    | some rest =>
      match constant? rest, word? "Some" rest, name? rest with
      | some found, _, _ => some found
      | none, some rest, _ => optional? fuel rest
      | none, none, some (n, rest) =>
        match skipBlanks? rest with
        | none => none
        | some ('(' :: rest) => parenthesis? fuel (some n) rest
        | some rest => some (.word n, rest)
      | none, none, none =>
        match rest with
        | '(' :: rest => parenthesis? fuel none rest
        | '[' :: rest => (items? fuel ']' rest).map fun (l, rest) => (.list l, rest)
        | '\x7b' :: rest => (entries? fuel rest).map fun (l, rest) => (.table l, rest)
        | rest => literal? rest

/-- Takes the value behind the word for one that is there off the front. -/
def optional? : Nat → List Char → Option (Ron × List Char)
  | 0, _ => none
  | fuel + 1, cs =>
    match skipBlanks? cs with
    | none => none
    | some ('(' :: rest) =>
      match parenthesis? fuel none rest with
      | some (.group _ [v], rest) => some (.present v, rest)
      | some (.group _ items, rest) => some (.presentItems items, rest)
      | some (.record _ l, rest) => some (.presentFields l, rest)
      | _ => none
    | some rest => (value? fuel rest).map fun (v, rest) => (.presentBare v, rest)

/-- Takes the inside of parentheses off the front: fields if a name and a colon come first. -/
def parenthesis? : Nat → Option (List Char) → List Char → Option (Ron × List Char)
  | 0, _, _ => none
  | fuel + 1, name, cs =>
    match skipBlanks? cs with
    | none => none
    | some rest =>
      if (field? rest).isSome then
        (fields? fuel rest).map fun (l, rest) => (.record name l, rest)
      else (items? fuel ')' rest).map fun (l, rest) => (.group name l, rest)

/-- Takes items off the front, up to the closing mark. -/
def items? : Nat → Char → List Char → Option (List Ron × List Char)
  | 0, _, _ => none
  | fuel + 1, closing, cs =>
    match skipBlanks? cs with
    | none => none
    | some [] => none
    | some (c :: rest) =>
      if c = closing then some ([], rest)
      else
        match value? fuel (c :: rest) with
        | none => none
        | some (v, rest) =>
          match skipBlanks? rest with
          | some (c :: rest) =>
            if c = closing then some ([v], rest)
            else if c = ',' then (items? fuel closing rest).map fun (l, rest) => (v :: l, rest)
            else none
          | _ => none

/-- Takes fields off the front, up to the closing parenthesis. -/
def fields? : Nat → List Char → Option (List (List Char × Ron) × List Char)
  | 0, _ => none
  | fuel + 1, cs =>
    match skipBlanks? cs with
    | none => none
    | some (')' :: rest) => some ([], rest)
    | some rest =>
      match field? rest with
      | none => none
      | some (n, rest) =>
        match value? fuel rest with
        | none => none
        | some (v, rest) =>
          match skipBlanks? rest with
          | some (')' :: rest) => some ([(n, v)], rest)
          | some (',' :: rest) => (fields? fuel rest).map fun (l, rest) => ((n, v) :: l, rest)
          | _ => none

/-- Takes the entries of a table off the front, up to its closing brace. -/
def entries? : Nat → List Char → Option (List (Ron × Ron) × List Char)
  | 0, _ => none
  | fuel + 1, cs =>
    match skipBlanks? cs with
    | none => none
    | some ('\x7d' :: rest) => some ([], rest)
    | some rest =>
      match value? fuel rest with
      | none => none
      | some (k, rest) =>
        match skipBlanks? rest with
        | some (':' :: rest) =>
          match value? fuel rest with
          | none => none
          | some (v, rest) =>
            match skipBlanks? rest with
            | some ('\x7d' :: rest) => some ([(k, v)], rest)
            | some (',' :: rest) => (entries? fuel rest).map fun (l, rest) => ((k, v) :: l, rest)
            | _ => none
        | _ => none

end

/-! ## Attributes -/

/-- Turns on what a name in an attribute stands for. Values with a single unnamed part never have
parentheses of their own, so there is nothing to unwrap. -/
def Extensions.enable? (e : Extensions) (name : String) : Option Extensions :=
  match name with
  | "unwrap_newtypes" => some e
  | "implicit_some" => some { e with implicitSome := true }
  | "explicit_struct_names" => some { e with explicitNames := true }
  | "unwrap_variant_newtypes" => some { e with unwrapVariants := true }
  | _ => none

/-- Takes the names in an attribute off the front, at least one, with commas between them. -/
def enabled? (e : Extensions) : Nat → List Char → Option (Extensions × List Char)
  | 0, _ => none
  | fuel + 1, cs => do
    let (name, rest) ← name? cs
    let e ← e.enable? (String.ofList name)
    match ← comma? rest with
    | (true, rest) => if continuesName rest then enabled? e fuel rest else some (e, rest)
    | (false, rest) => some (e, rest)

/-- Takes the attributes in front of a value off the front. -/
def attributes? (e : Extensions) : Nat → List Char → Option (Extensions × List Char)
  | 0, _ => none
  | fuel + 1, cs => do
    let cs ← skipBlanks? cs
    if cs.head? = some '#' then
      let rest ← tokens? [['#'], ['!'], ['['], "enable".toList, ['(']] cs
      let (e, rest) ← enabled? e fuel rest
      attributes? e fuel (← tokens? [[')'], [']']] rest)
    else some (e, cs)

/-- The value that the text holds, if it holds one value and nothing else, and what the attributes
in front of it turn on. -/
def parse? (s : String) : Option (Extensions × Ron) := do
  let cs := s.toList
  let (e, cs) ← attributes? {} (cs.length + 1) cs
  let (v, rest) ← value? (2 * cs.length + 1) cs
  if (← skipBlanks? rest).isEmpty then some (e, v) else none

end ProcessNet.Ron
