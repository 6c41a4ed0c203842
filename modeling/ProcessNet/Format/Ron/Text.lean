/-
Texts, bytes and characters in RON. Escapes spell characters by a mark, by their code point, or by
the bytes of their encoding; a raw text ends at the first quote that as many signs follow as stand
in front of it.
-/
import ProcessNet.Text.CodePoint

namespace ProcessNet.Ron

/-! ## Escapes -/

/-- The character that stands behind a backslash for another one. -/
def unescapeMark? : Char → Option Char
  | '\'' => some '\''
  | '"' => some '"'
  | '\\' => some '\\'
  | 'n' => some '\n'
  | 'r' => some '\r'
  | 't' => some '\t'
  | '0' => some '\x00'
  | _ => none

/-- The byte of two hexadecimal digits. -/
def byte? : List Char → Option (UInt8 × List Char)
  | a :: b :: cs => (Text.ofDigits? 16 [a, b]).map fun n => (n.toUInt8, cs)
  | _ => none

/-- The character that the bytes encode, if they encode one and nothing else. -/
def encoded? (bytes : List UInt8) : Option Char :=
  match String.fromUTF8? ⟨bytes.toArray⟩ with
  | some s =>
    match s.toList with
    | [c] => some c
    | _ => none
  | none => none

/-- The character whose encoding goes on with bytes that are escaped one by one; `count` of them
may follow. -/
def encodedRest? : Nat → List UInt8 → List Char → Option (Char × List Char)
  | 0, _, _ => none
  | count + 1, bs, '\\' :: 'x' :: cs => do
    let (b, rest) ← byte? cs
    match encoded? (bs ++ [b]) with
    | some c => some (c, rest)
    | none => encodedRest? count (bs ++ [b]) rest
  | _ + 1, _, _ => none

/-- The character of a code point between braces, in one to six digits. -/
def codePoint? : List Char → Option (Char × List Char)
  | '\x7b' :: cs =>
    match cs.span (· ≠ '\x7d') with
    | (ds, _ :: rest) =>
      if 1 ≤ ds.length ∧ ds.length ≤ 6 then
        ((Text.ofDigits? 16 ds).bind Text.scalar?).map (·, rest)
      else none
    | (_, []) => none
  | _ => none

/-- The character of an escape, behind its backslash. A text may spell a character by up to four
bytes, a character only by one. -/
def escape? (inText : Bool) : List Char → Option (Char × List Char)
  | 'x' :: cs => do
    let (b, rest) ← byte? cs
    match encoded? [b] with
    | some c => some (c, rest)
    | none => if inText then encodedRest? 3 [b] rest else none
  | 'u' :: cs => codePoint? cs
  | c :: cs => (unescapeMark? c).map (·, cs)
  | [] => none

/-- The bytes of an escape, behind its backslash. -/
def escapedBytes? : List Char → Option (List UInt8 × List Char)
  | 'x' :: cs => (byte? cs).map fun (b, rest) => ([b], rest)
  | cs => (escape? false cs).map fun (c, rest) => (String.utf8EncodeChar c, rest)

/-! ## Texts -/

/-- Takes the rest of a text off the front, behind its opening quote. -/
def textRest? : Nat → List Char → Option (List Char × List Char)
  | 0, _ => none
  | _ + 1, [] => none
  | _ + 1, '"' :: cs => some ([], cs)
  | fuel + 1, '\\' :: cs =>
    match escape? true cs with
    | none => none
    | some (c, rest) => (textRest? fuel rest).map fun (s, rest) => (c :: s, rest)
  | fuel + 1, c :: cs => (textRest? fuel cs).map fun (s, rest) => (c :: s, rest)

/-- Takes the rest of a row of bytes off the front, behind its opening quote. -/
def bytesRest? : Nat → List Char → Option (List UInt8 × List Char)
  | 0, _ => none
  | _ + 1, [] => none
  | _ + 1, '"' :: cs => some ([], cs)
  | fuel + 1, '\\' :: cs =>
    match escapedBytes? cs with
    | none => none
    | some (b, rest) => (bytesRest? fuel rest).map fun (bs, rest) => (b ++ bs, rest)
  | fuel + 1, c :: cs =>
    (bytesRest? fuel cs).map fun (bs, rest) => (String.utf8EncodeChar c ++ bs, rest)

/-- Takes the rest of a raw text off the front; a quote closes it when `closing` follows. -/
def rawRest? (closing : List Char) : List Char → Option (List Char × List Char)
  | [] => none
  | c :: cs =>
    if c = '"' ∧ closing.isPrefixOf cs then some ([], cs.drop closing.length)
    else (rawRest? closing cs).map fun (s, rest) => (c :: s, rest)

/-- Takes a raw text off the front, behind the letter that announces it. -/
def raw? (cs : List Char) : Option (List Char × List Char) :=
  match cs.span (· = '#') with
  | (marks, '"' :: rest) => rawRest? marks rest
  | _ => none

/-- Takes a character off the front, behind its opening quote. -/
def character? : List Char → Option (Char × List Char)
  | '\\' :: cs =>
    match escape? false cs with
    | some (c, '\'' :: rest) => some (c, rest)
    | _ => none
  | c :: '\'' :: rest => some (c, rest)
  | _ => none

/-- Takes a byte off the front, behind its opening quote: an ASCII character, or an escape that is
no code point. -/
def byteLiteral? : List Char → Option (UInt8 × List Char)
  | '\\' :: 'u' :: _ => none
  | '\\' :: cs =>
    match escapedBytes? cs with
    | some ([b], '\'' :: rest) => some (b, rest)
    | _ => none
  | c :: '\'' :: rest => if c.toNat < 0x80 then some (c.toNat.toUInt8, rest) else none
  | _ => none

end ProcessNet.Ron
