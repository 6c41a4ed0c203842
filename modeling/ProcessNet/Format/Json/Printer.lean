/-
Writing JSON, in a row or with one item a line.
-/
import ProcessNet.Format.Json.Basic

namespace ProcessNet.Json

/-- Puts a separator between the parts. -/
def join (separator : List Char) : List (List Char) → List Char
  | [] => []
  | [cs] => cs
  | cs :: rest => cs ++ separator ++ join separator rest

mutual

/-- The value in a row, without blanks. -/
def compactChars : Json → List Char
  | .null => ['n', 'u', 'l', 'l']
  | .bool true => ['t', 'r', 'u', 'e']
  | .bool false => ['f', 'a', 'l', 's', 'e']
  | .number cs => cs
  | .string cs => '"' :: cs ++ ['"']
  | .array items => '[' :: join [','] (compactItems items) ++ [']']
  | .object members => '\x7b' :: join [','] (compactMembers members) ++ ['\x7d']

def compactItems : List Json → List (List Char)
  | [] => []
  | v :: l => compactChars v :: compactItems l

def compactMembers : List (List Char × Json) → List (List Char)
  | [] => []
  | (key, v) :: l => ('"' :: key ++ ['"', ':'] ++ compactChars v) :: compactMembers l

end

/-- A line break and two blanks for each level. -/
def newLine (level : Nat) : List Char := '\n' :: List.replicate (2 * level) ' '

/-- Brackets around parts that stand on lines of their own, one level further in. -/
def block (level : Nat) (opening closing : Char) : List (List Char) → List Char
  | [] => [opening, closing]
  | parts =>
    opening :: newLine (level + 1) ++ join (',' :: newLine (level + 1)) parts
      ++ newLine level ++ [closing]

mutual

/-- The value with each item on a line of its own. -/
def prettyChars (level : Nat) : Json → List Char
  | .null => ['n', 'u', 'l', 'l']
  | .bool true => ['t', 'r', 'u', 'e']
  | .bool false => ['f', 'a', 'l', 's', 'e']
  | .number cs => cs
  | .string cs => '"' :: cs ++ ['"']
  | .array items => block level '[' ']' (prettyItems (level + 1) items)
  | .object members => block level '\x7b' '\x7d' (prettyMembers (level + 1) members)

def prettyItems (level : Nat) : List Json → List (List Char)
  | [] => []
  | v :: l => prettyChars level v :: prettyItems level l

def prettyMembers (level : Nat) : List (List Char × Json) → List (List Char)
  | [] => []
  | (key, v) :: l =>
    ('"' :: key ++ ['"', ':', ' '] ++ prettyChars level v) :: prettyMembers level l

end

/-- The text of the value in a row. -/
def compact (v : Json) : String := String.ofList (compactChars v)

/-- The text of the value on indented lines. -/
def pretty (v : Json) : String := String.ofList (prettyChars 0 v)

end ProcessNet.Json
