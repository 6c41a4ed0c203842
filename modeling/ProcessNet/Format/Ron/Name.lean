/-
Names in RON. A raw name stands behind a mark, may hold points and signs, and is never one of the
words with a meaning of their own.
-/
import ProcessNet.Text.Name

namespace ProcessNet.Ron

def isNameStart (c : Char) : Bool := Text.isLetter c || c == '_'

def isNameRest (c : Char) : Bool := Text.isNameRest c

/-- Characters of raw names. -/
def isRawNameChar (c : Char) : Bool := isNameRest c || c == '.' || c == '+' || c == '-'

/-- Whether a name goes on with the text. -/
def continuesName (cs : List Char) : Bool := cs.head?.any isNameRest

/-- Takes a fixed word off the front, unless a longer name stands there. -/
def word? (word : String) (cs : List Char) : Option (List Char) :=
  let rest := cs.drop word.length
  if word.toList.isPrefixOf cs && !continuesName rest then some rest else none

/-- What texts and bytes begin with, though a name could begin so too. -/
def literalMarks : List (List Char) :=
  [['b', '"'], ['b', '\''], ['b', 'r', '#'], ['b', 'r', '"'], ['r', '"'], ['r', '#', '"'],
    ['r', '#', '#']]

/-- Takes a name off the front; the mark in front of a raw name does not belong to it. -/
def name? (cs : List Char) : Option (List Char × List Char) :=
  if literalMarks.any (·.isPrefixOf cs) then none
  else
    match cs with
    | 'r' :: '#' :: cs =>
      match cs.span isRawNameChar with
      | ([], _) => none
      | found => some found
    | c :: cs =>
      if isNameStart c then
        let (more, rest) := cs.span isNameRest
        some (c :: more, rest)
      else none
    | [] => none

end ProcessNet.Ron
