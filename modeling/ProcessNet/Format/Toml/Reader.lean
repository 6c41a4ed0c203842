/-
Reading TOML: a text of lines, each of them blank, a comment, a header or a key with its value.
-/
import ProcessNet.Format.Toml.Key
import ProcessNet.Format.Toml.Moment
import ProcessNet.Format.Toml.Number

namespace ProcessNet.Toml

/-! ## Words -/

/-- Characters of words that are no texts. -/
def isScalarChar (c : Char) : Bool :=
  c.isAlphanum || c == '_' || c == '-' || c == '+' || c == '.' || c == ':'

/-- The value of a word that is no text. -/
def scalarOf? (cs : List Char) : Option Toml :=
  match cs with
  | ['t', 'r', 'u', 'e'] => some (.bool true)
  | ['f', 'a', 'l', 's', 'e'] => some (.bool false)
  | cs => (number? cs).orElse fun _ => if isMoment cs then some (.moment cs) else none

/-- Takes a word that is no text off the front; a blank may part a day from its time. -/
def scalarWord? (cs : List Char) : Option (Toml × List Char) :=
  let (word, rest) := cs.span isScalarChar
  match rest with
  | ' ' :: more =>
    let (time, rest') := more.span isScalarChar
    if isDay word ∧ isTimeWithOffset time then some (.moment (word ++ ' ' :: time), rest')
    else (scalarOf? word).map (·, rest)
  | rest => (scalarOf? word).map (·, rest)

/-! ## Values -/

mutual

/-- Takes a value off the front. -/
def value? : Nat → List Char → Option (Toml × List Char)
  | 0, _ => none
  | fuel + 1, cs =>
    match cs with
    | '"' :: _ | '\'' :: _ => (text? cs).map fun (s, rest) => (.text s, rest)
    | '[' :: rest => (items? fuel rest).map fun (l, rest) => (.array l, rest)
    | '\x7b' :: rest => (entries? fuel [] rest).map fun (l, rest) => (.table .inline l, rest)
    | cs => scalarWord? cs

/-- Takes the items of an array off the front, up to its closing bracket. -/
def items? : Nat → List Char → Option (List Toml × List Char)
  | 0, _ => none
  | fuel + 1, cs =>
    match skipLines? cs with
    | none => none
    | some (']' :: rest) => some ([], rest)
    | some rest =>
      match value? fuel rest with
      | none => none
      | some (v, rest) =>
        match skipLines? rest with
        | some (']' :: rest) => some ([v], rest)
        | some (',' :: rest) => (items? fuel rest).map fun (l, rest) => (v :: l, rest)
        | _ => none

/-- Takes the entries of an inline table off the front, up to its closing brace, behind those found
before. -/
def entries? : Nat → List (String × Toml) → List Char → Option (List (String × Toml) × List Char)
  | 0, _, _ => none
  | fuel + 1, found, cs =>
    match skipLines? cs with
    | none => none
    | some ('\x7d' :: rest) => some (found, rest)
    | some rest =>
      match (key? rest).bind fun (key, rest) => (skipLines? rest).map (key, ·) with
      | some (key, '=' :: rest) =>
        match (skipLines? rest).bind (value? fuel) with
        | none => none
        | some (v, rest) =>
          match assign? found v key, skipLines? rest with
          | some found, some ('\x7d' :: rest) => some (found, rest)
          | some found, some (',' :: rest) => entries? fuel found rest
          | _, _ => none
      | _ => none

end

/-! ## Lines -/

/-- Takes the value of a line off the front. -/
def lineValue? (cs : List Char) : Option (Toml × List Char) :=
  (value? (cs.length + 1) cs).filter (·.1.nesting ≤ maxNesting)

/-- Reads the lines of a text into the root table; `header` is the path of the open table. -/
def lines? : Nat → List (String × Toml) → List String → List Char → Option (List (String × Toml))
  | 0, _, _, _ => none
  | fuel + 1, root, header, cs =>
    match skipSpaces cs with
    | [] => some root
    | '[' :: '[' :: rest =>
      match key? rest with
      | some (path, ']' :: ']' :: rest) =>
        match openNextTable? root path, lineEnd? rest with
        | some root, some rest => lines? fuel root path rest
        | _, _ => none
      | _ => none
    | '[' :: rest =>
      match key? rest with
      | some (path, ']' :: rest) =>
        match openTable? root path, lineEnd? rest with
        | some root, some rest => lines? fuel root path rest
        | _, _ => none
      | _ => none
    | rest =>
      match lineEnd? rest with
      | some rest => lines? fuel root header rest
      | none =>
        match key? rest with
        | some (key, '=' :: rest) =>
          match lineValue? (skipSpaces rest) with
          | none => none
          | some (v, rest) =>
            match atHeader? (fun entries => assign? entries v key) root header,
              lineEnd? rest with
            | some root, some rest => lines? fuel root header rest
            | _, _ => none
        | _ => none

/-- Skips the mark that may stand in front of a text. -/
def skipByteOrderMark : List Char → List Char
  | '\ufeff' :: cs => cs
  | cs => cs

/-- The root table of a text. -/
def parse? (s : String) : Option Toml :=
  let cs := skipByteOrderMark s.toList
  (lines? (cs.length + 1) [] [] cs).map (.table .headed)

end ProcessNet.Toml
