/-
Blanks, comments and line ends in TOML.
-/

namespace ProcessNet.Toml

def isSpace (c : Char) : Bool := c == ' ' || c == '\t'

def skipSpaces (cs : List Char) : List Char := cs.dropWhile isSpace

/-- Control characters other than the tab. -/
def isControl (c : Char) : Bool := (c.toNat < 0x20 && c != '\t') || c.toNat == 0x7f

/-- Takes a line end off the front. -/
def newLine? : List Char → Option (List Char)
  | '\n' :: cs => some cs
  | '\r' :: '\n' :: cs => some cs
  | _ => none

/-- Skips a comment, if one stands here, up to the end of its line. -/
def skipComment? : List Char → Option (List Char)
  | '#' :: cs =>
    let rest := cs.dropWhile fun c => !isControl c
    if rest.isEmpty || (newLine? rest).isSome then some rest else none
  | cs => some cs

/-- Takes the end of a line off the front, with the blanks and the comment before it. -/
def lineEnd? (cs : List Char) : Option (List Char) := do
  let rest ← skipComment? (skipSpaces cs)
  if rest.isEmpty then some [] else newLine? rest

/-- Skips at most so many lines of blanks and comments. -/
def skipLinesWithin? : Nat → List Char → Option (List Char)
  | 0, _ => none
  | fuel + 1, cs => do
    let rest ← skipComment? (skipSpaces cs)
    match newLine? rest with
    | some rest => skipLinesWithin? fuel rest
    | none => some rest

/-- Skips blanks, comments and line ends, as they may stand within an array or an inline table. -/
def skipLines? (cs : List Char) : Option (List Char) := skipLinesWithin? (cs.length + 1) cs

end ProcessNet.Toml
