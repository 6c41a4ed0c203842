/-
Writing RON with one item a line and four blanks for each level. Groups stay in a row, and a comma
follows every item that has a line of its own.
-/
import ProcessNet.Format.Ron.Basic
import ProcessNet.Text.Escape

namespace ProcessNet.Ron

/-- The characters that a text writes behind a backslash. -/
def marks : List Char := ['"', '\'', '\\']

/-- A text between its quotes. -/
def quoted (cs : List Char) : List Char := '"' :: cs.flatMap (Text.escapeChar marks) ++ ['"']

/-- A byte between the quotes of a row of bytes. -/
def byteChars (b : UInt8) : List Char :=
  let n := b.toNat
  ['\\', 'x', Nat.digitChar (n / 16), Nat.digitChar (n % 16)]

/-- The suffix that names a type of whole numbers. -/
def suffixChars (t : IntegerType) : List Char :=
  (if t.signed then 'i' else 'u') :: (toString t.bits).toList

/-- A line break and four blanks for each level. -/
def newLine (level : Nat) : List Char := '\n' :: List.replicate (4 * level) ' '

/-- Brackets around parts that stand on lines of their own, one level further in. -/
def block (level : Nat) (opening closing : Char) : List (List Char) → List Char
  | [] => [opening, closing]
  | parts =>
    opening :: parts.flatMap (fun cs => newLine (level + 1) ++ cs ++ [','])
      ++ newLine level ++ [closing]

/-- Parts in a row. -/
def row : List (List Char) → List Char
  | [] => []
  | [cs] => cs
  | cs :: rest => cs ++ [',', ' '] ++ row rest

mutual

/-- The text of a value that starts on a line of the given level. -/
def prettyChars (level : Nat) : Ron → List Char
  | .bool b => (if b then "true" else "false").toList
  | .absent => "None".toList
  | .present v => "Some(".toList ++ prettyChars level v ++ [')']
  | .presentBare v => "Some ".toList ++ prettyChars level v
  | .presentFields fields =>
    "Some".toList ++ block level '(' ')' (prettyFields (level + 1) fields)
  | .presentItems items => "Some(".toList ++ row (prettyItems level items) ++ [')']
  | .word name => name
  | .integer n suffix => (toString n).toList ++ (suffix.map suffixChars).getD []
  | .real cs => cs
  | .character c => '\'' :: Text.escapeChar marks c ++ ['\'']
  | .text cs => quoted cs
  | .bytes bs => 'b' :: '"' :: bs.flatMap byteChars ++ ['"']
  | .unit => ['(', ')']
  | .list items => block level '[' ']' (prettyItems (level + 1) items)
  | .table entries => block level '\x7b' '\x7d' (prettyEntries (level + 1) entries)
  | .group name items => name.getD [] ++ '(' :: row (prettyItems level items) ++ [')']
  | .record name fields => name.getD [] ++ block level '(' ')' (prettyFields (level + 1) fields)

def prettyItems (level : Nat) : List Ron → List (List Char)
  | [] => []
  | v :: l => prettyChars level v :: prettyItems level l

def prettyEntries (level : Nat) : List (Ron × Ron) → List (List Char)
  | [] => []
  | (k, v) :: l =>
    (prettyChars level k ++ [':', ' '] ++ prettyChars level v) :: prettyEntries level l

def prettyFields (level : Nat) : List (List Char × Ron) → List (List Char)
  | [] => []
  | (n, v) :: l => (n ++ [':', ' '] ++ prettyChars level v) :: prettyFields level l

end

/-- The text of the value on indented lines. -/
def pretty (v : Ron) : String := String.ofList (prettyChars 0 v)

end ProcessNet.Ron
