/-
JSON values as they are written. Numbers and strings keep their spelling: a reader that skips a
value does not judge it, and a number that stands as a key has one spelling only.
-/
import ProcessNet.Text.CodePoint

namespace ProcessNet

/-- A JSON value in its written form. -/
inductive Json where
  | null
  | bool (value : Bool)
  /-- A number, spelled as in the text. -/
  | number (spelling : List Char)
  /-- A string, spelled as between its quotes. -/
  | string (spelling : List Char)
  | array (items : List Json)
  /-- The members in their order; keys are spelled as between their quotes. -/
  | object (members : List (List Char × Json))
deriving Inhabited

namespace Json

/-! ## Spelling of numbers -/

/-- The decimal digits of a number. -/
def digits (n : Nat) : List Char := Nat.toDigits 10 n

/-- The number that a list of decimal digits spells, if it spells one. -/
def decimal? : List Char → Option Nat
  | [] => none
  | cs => Text.ofDigits? 10 cs

/-! ## Spelling of strings -/

/-- Code points that stand in pairs for those past the sixteen-bit range. -/
def isHighSurrogate (n : Nat) : Bool := 0xd800 ≤ n && n < 0xdc00

def isLowSurrogate (n : Nat) : Bool := 0xdc00 ≤ n && n < 0xe000

/-- The number that four hexadecimal digits spell. -/
def hexQuad? (a b c d : Char) : Option Nat := Text.ofDigits? 16 [a, b, c, d]

/-- The character that stands behind a backslash for another one. -/
def unescapeMark? : Char → Option Char
  | '"' => some '"'
  | '\\' => some '\\'
  | '/' => some '/'
  | 'b' => some '\x08'
  | 'f' => some '\x0c'
  | 'n' => some '\n'
  | 'r' => some '\r'
  | 't' => some '\t'
  | _ => none

/-- The text that a spelling stands for. A surrogate that has no partner stands for none. -/
def unescape? : List Char → Option (List Char)
  | [] => some []
  | '\\' :: 'u' :: a :: b :: c :: d :: rest =>
    match hexQuad? a b c d with
    | none => none
    | some n =>
      if isHighSurrogate n then
        match rest with
        | '\\' :: 'u' :: e :: f :: g :: h :: rest =>
          match hexQuad? e f g h with
          | none => none
          | some m =>
            if isLowSurrogate m then
              (unescape? rest).map
                (Char.ofNat (0x10000 + (n - 0xd800) * 0x400 + (m - 0xdc00)) :: ·)
            else none
        | _ => none
      else if isLowSurrogate n then none
      else (unescape? rest).map (Char.ofNat n :: ·)
  | '\\' :: c :: rest =>
    match unescapeMark? c with
    | none => none
    | some c => (unescape? rest).map (c :: ·)
  | c :: rest => if c = '\\' ∨ c = '"' then none else (unescape? rest).map (c :: ·)

/-- A digit of the hexadecimal system, small letters past nine. -/
def hexDigit (n : Nat) : Char := Nat.digitChar n

/-- The spelling of a character within a string: quotes, backslashes and control characters are
escaped, all else stands as it is. -/
def escapeChar (c : Char) : List Char :=
  match c with
  | '"' => ['\\', '"']
  | '\\' => ['\\', '\\']
  | '\x08' => ['\\', 'b']
  | '\x0c' => ['\\', 'f']
  | '\n' => ['\\', 'n']
  | '\r' => ['\\', 'r']
  | '\t' => ['\\', 't']
  | c =>
    if c.toNat < 0x20 then ['\\', 'u', '0', '0', hexDigit (c.toNat / 16), hexDigit (c.toNat % 16)]
    else [c]

def escape (cs : List Char) : List Char := cs.flatMap escapeChar

/-! ## Building values -/

def ofNat (n : Nat) : Json := .number (digits n)

def ofText (s : String) : Json := .string (escape s.toList)

def ofOption {α : Type} (f : α → Json) : Option α → Json
  | none => .null
  | some x => f x

/-- An object with the given members, in this order. -/
def ofMembers (members : List (String × Json)) : Json :=
  .object (members.map fun (key, value) => (escape key.toList, value))

/-! ## Taking values apart -/

/-- The number, if it is spelled by decimal digits alone. -/
def toNat? : Json → Option Nat
  | .number cs => decimal? cs
  | _ => none

def toBool? : Json → Option Bool
  | .bool b => some b
  | _ => none

/-- The text of a spelling. -/
def text? (spelling : List Char) : Option String := (unescape? spelling).map String.ofList

def toText? : Json → Option String
  | .string cs => text? cs
  | _ => none

def toList? : Json → Option (List Json)
  | .array items => some items
  | _ => none

/-- The members with their keys as texts. -/
def toMembers? : Json → Option (List (String × Json))
  | .object members => members.mapM fun (key, value) => (text? key).map (·, value)
  | _ => none

end Json

end ProcessNet
