/-
Blanks and comments of RON: they may stand between any two tokens. A comment goes on to the end of
its line, or up to its closing mark, and may then hold others.
-/

namespace ProcessNet.Ron

/-- Blanks between tokens. -/
def isBlank (c : Char) : Bool :=
  c == ' ' || c == '\n' || c == '\t' || c == '\r' || c == '\x0b' || c == '\x0c'
    || c == '\u0085' || c == '\u200e' || c == '\u200f' || c == '\u2028' || c == '\u2029'

/-- Skips the rest of a comment that is `depth` deep. -/
def skipComment? : Nat → List Char → Option (List Char)
  | 0, cs => some cs
  | _ + 1, [] => none
  | depth + 1, '*' :: '/' :: cs => skipComment? depth cs
  | depth + 1, '/' :: '*' :: cs => skipComment? (depth + 2) cs
  | depth + 1, _ :: cs => skipComment? (depth + 1) cs
termination_by _ cs => cs.length

theorem skipComment?_length {depth : Nat} {cs rest : List Char}
    (h : skipComment? depth cs = some rest) : rest.length ≤ cs.length := by
  fun_induction skipComment? depth cs with
  | case1 => simp_all
  | case2 => simp at h
  | case3 _ _ ih | case4 _ _ ih | case5 _ _ _ _ _ ih =>
    have := ih h
    simp only [List.length_cons]
    omega

/-- Skips blanks and comments; a comment that is not closed is no text. -/
def skipBlanks? (cs : List Char) : Option (List Char) :=
  match cs with
  | [] => some []
  | '/' :: '/' :: rest => skipBlanks? (rest.dropWhile (· ≠ '\n'))
  | '/' :: '*' :: rest =>
    match _h : skipComment? 1 rest with
    | none => none
    | some rest' => skipBlanks? rest'
  | c :: rest => if isBlank c then skipBlanks? rest else some (c :: rest)
termination_by cs.length
decreasing_by
  · have := (List.dropWhile_sublist (l := rest) (· ≠ '\n')).length_le
    simp only [List.length_cons]
    omega
  · have := skipComment?_length _h
    simp only [List.length_cons]
    omega
  · simp

/-- Takes tokens off the front, one after the other, with the blanks behind each of them. -/
def tokens? : List (List Char) → List Char → Option (List Char)
  | [], cs => some cs
  | token :: more, cs =>
    if token.isPrefixOf cs then
      (skipBlanks? (cs.drop token.length)).bind (tokens? more)
    else none

/-- Takes a comma off the front, if one stands here, with the blanks on both sides of it. -/
def comma? (cs : List Char) : Option (Bool × List Char) :=
  match skipBlanks? cs with
  | none => none
  | some (',' :: rest) => (skipBlanks? rest).map (true, ·)
  | some rest => some (false, rest)

end ProcessNet.Ron
