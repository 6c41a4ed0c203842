/-
Keys in TOML: parts with dots between them, each of them bare or a text on one line.
-/
import ProcessNet.Format.Toml.Basic
import ProcessNet.Format.Toml.Text

namespace ProcessNet.Toml

def isKeyChar (c : Char) : Bool := c.isAlphanum || c == '_' || c == '-'

/-- Takes one part of a key off the front. -/
def keyPart? (cs : List Char) : Option (String × List Char) :=
  match cs.span isKeyChar with
  | ([], _) => line? cs
  | found => some (finish found)

/-- Takes at most so many parts of a key off the front, with the blanks on both sides of them. -/
def keyWithin? : Nat → List Char → Option (List String × List Char)
  | 0, _ => none
  | count + 1, cs => do
    let (part, rest) ← keyPart? (skipSpaces cs)
    match skipSpaces rest with
    | '.' :: rest => (keyWithin? count rest).map fun (parts, rest) => (part :: parts, rest)
    | rest => some ([part], rest)

/-- Takes a key off the front. -/
def key? (cs : List Char) : Option (List String × List Char) := keyWithin? maxNesting cs

end ProcessNet.Toml
