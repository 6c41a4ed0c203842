/-
Texts in TOML, on one line or on several, with escapes or without.
-/
import ProcessNet.Format.Toml.Blank
import ProcessNet.Text.CodePoint

namespace ProcessNet.Toml

/-- The character of a code point in `count` hexadecimal digits. -/
def scalar? (count : Nat) (cs : List Char) : Option (Char × List Char) := do
  let ds := cs.take count
  if ds.length < count then none
  let c ← (Text.ofDigits? 16 ds).bind Text.scalar?
  return (c, cs.drop count)

/-- The character of an escape, behind its backslash. -/
def escape? : List Char → Option (Char × List Char)
  | 'x' :: cs => scalar? 2 cs
  | 'u' :: cs => scalar? 4 cs
  | 'U' :: cs => scalar? 8 cs
  | 'b' :: cs => some ('\x08', cs)
  | 't' :: cs => some ('\t', cs)
  | 'n' :: cs => some ('\n', cs)
  | 'f' :: cs => some ('\x0c', cs)
  | 'r' :: cs => some ('\r', cs)
  | 'e' :: cs => some ('\x1b', cs)
  | '"' :: cs => some ('"', cs)
  | '\\' :: cs => some ('\\', cs)
  | _ => none

/-- Takes the rest of a text on one line off the front, up to the closing quote. -/
def textRest? (quote : Char) : Nat → List Char → Option (List Char × List Char)
  | 0, _ => none
  | _ + 1, [] => none
  | fuel + 1, c :: cs =>
    if c = quote then some ([], cs)
    else if c = '\\' ∧ quote = '"' then
      match escape? cs with
      | none => none
      | some (c, rest) => (textRest? quote fuel rest).map fun (s, rest) => (c :: s, rest)
    else if isControl c then none
    else (textRest? quote fuel cs).map fun (s, rest) => (c :: s, rest)

/-- Blanks and line ends behind a backslash that ends its line. -/
def skipFolded (cs : List Char) : List Char :=
  cs.dropWhile fun c => isSpace c || c == '\n' || c == '\r'

/-- Whether a line ends here, but for blanks. -/
def endsLine (cs : List Char) : Bool := (newLine? (skipSpaces cs)).isSome

/-- Takes the rest of a text on several lines off the front, up to three closing quotes; up to two
quotes before these belong to the text. -/
def linesRest? (quote : Char) : Nat → List Char → Option (List Char × List Char)
  | 0, _ => none
  | _ + 1, [] => none
  | fuel + 1, c :: cs =>
    if [quote, quote, quote].isPrefixOf (c :: cs) then
      let run := (c :: cs).takeWhile (· = quote)
      let extra := min 2 (run.length - 3)
      some (List.replicate extra quote, (c :: cs).drop (extra + 3))
    else if c = '\\' ∧ quote = '"' then
      if endsLine cs then linesRest? quote fuel (skipFolded cs)
      else
        match escape? cs with
        | none => none
        | some (c, rest) => (linesRest? quote fuel rest).map fun (s, rest) => (c :: s, rest)
    else if c = '\r' ∧ cs.head? ≠ some '\n' then none
    else if isControl c ∧ c ≠ '\n' ∧ c ≠ '\r' then none
    else (linesRest? quote fuel cs).map fun (s, rest) => (c :: s, rest)

/-- A text with its characters put together. -/
def finish (found : List Char × List Char) : String × List Char :=
  (String.ofList found.1, found.2)

/-- Takes a text on one line off the front. -/
def line? : List Char → Option (String × List Char)
  | '"' :: cs => (textRest? '"' (cs.length + 1) cs).map finish
  | '\'' :: cs => (textRest? '\'' (cs.length + 1) cs).map finish
  | _ => none

/-- Takes a text off the front, on one line or on several. -/
def text? (cs : List Char) : Option (String × List Char) :=
  match cs with
  | '"' :: '"' :: '"' :: cs =>
    let cs := (newLine? cs).getD cs
    (linesRest? '"' (cs.length + 1) cs).map finish
  | '\'' :: '\'' :: '\'' :: cs =>
    let cs := (newLine? cs).getD cs
    (linesRest? '\'' (cs.length + 1) cs).map finish
  | cs => line? cs

end ProcessNet.Toml
