/-
Numbers in RON: whole numbers in four bases, perhaps with the suffix of a type, and real numbers. A
whole number that is too large for its widest type is read as a real one.
-/
import ProcessNet.Format.Ron.Basic
import ProcessNet.Format.Ron.Name
import ProcessNet.Text.CodePoint

namespace ProcessNet.Ron

/-- Takes a sign off the front, if there is one: whether it is a minus. -/
def sign : List Char → Bool × List Char
  | '-' :: cs => (true, cs)
  | '+' :: cs => (false, cs)
  | cs => (false, cs)

/-! ## Whole numbers -/

/-- Characters of whole numbers. -/
def isWholeChar (c : Char) : Bool := (Text.digit? c).isSome || c == '_'

namespace IntegerType

/-- The numbers of the type. -/
def contains (t : IntegerType) : Int → Bool
  | .ofNat n => n < Nat.pow 2 (if t.signed then t.bits - 1 else t.bits)
  | .negSucc n => t.signed && n < Nat.pow 2 (t.bits - 1)

/-- The types that a suffix can name. -/
def named : List (String × IntegerType) :=
  [("i8", ⟨true, 8⟩), ("i16", ⟨true, 16⟩), ("i32", ⟨true, 32⟩), ("i64", ⟨true, 64⟩),
    ("u8", ⟨false, 8⟩), ("u16", ⟨false, 16⟩), ("u32", ⟨false, 32⟩), ("u64", ⟨false, 64⟩)]

/-- Takes a suffix off the front. -/
def ofSuffix? (cs : List Char) : Option (IntegerType × List Char) :=
  named.findSome? fun (name, t) => (word? name cs).map (t, ·)

/-- The type of a number without a suffix. -/
def widest (negative : Bool) : IntegerType := ⟨negative, 64⟩

end IntegerType

/-- The number that digits spell in a base; underscores between and behind them do not count. -/
def digits? (base : Nat) : List Char → Option Nat
  | [] => none
  | '_' :: _ => none
  | cs => Text.ofDigits? base (cs.filter (· ≠ '_'))

/-- Takes a whole number off the front. Only decimal and binary digits can have a suffix. -/
def integer? (cs : List Char) : Option (Ron × List Char) := do
  let (negative, cs) := sign cs
  let (base, cs) := match cs with
    | '0' :: 'x' :: cs => (16, cs)
    | '0' :: 'b' :: cs => (2, cs)
    | '0' :: 'o' :: cs => (8, cs)
    | cs => (10, cs)
  let (spelling, rest) := cs.span isWholeChar
  let n ← digits? base spelling
  let n := if negative then -(n : Int) else n
  match if base = 10 ∨ base = 2 then IntegerType.ofSuffix? rest else none with
  | some (t, rest) => if t.contains n then some (.integer n t, rest) else none
  | none => if (IntegerType.widest negative).contains n then some (ofInt n, rest) else none

/-! ## Real numbers -/

/-- Characters of real numbers. -/
def isRealChar (c : Char) : Bool :=
  c.isDigit || c == 'e' || c == 'E' || c == '.' || c == '+' || c == '-' || c == '_'

/-- Leaves out underscores: they may stand behind a digit or the mark of a power, perhaps with its
sign between, but not in front or behind a point. -/
def dropUnderscores? : (allowed : Bool) → List Char → Option (List Char)
  | _, [] => some []
  | allowed, '_' :: cs => if allowed then dropUnderscores? allowed cs else none
  | allowed, c :: cs =>
    (dropUnderscores? (if c = '.' then false else allowed || (c ≠ '+' && c ≠ '-')) cs).map (c :: ·)

/-- Whether the characters are digits, at least one. -/
def areDigits (cs : List Char) : Bool := !cs.isEmpty && cs.all Char.isDigit

/-- Whether the characters spell a real number: a digit on one side of the point at least, and
digits behind the mark of a power. -/
def isReal (cs : List Char) : Bool :=
  let (mantissa, power) := (sign cs).2.span fun c => c != 'e' && c != 'E'
  let (whole, fraction) := mantissa.span (· ≠ '.')
  areDigits (whole ++ fraction.drop 1) && (power.isEmpty || areDigits (sign (power.drop 1)).2)

/-- Takes the suffix of a real number off the front, if there is one. -/
def skipRealSuffix (cs : List Char) : List Char :=
  ((word? "f32" cs).orElse fun _ => word? "f64" cs).getD cs

/-- The words for numbers without digits. -/
def realWords : List String := ["inf", "inff32", "inff64", "NaN", "NaNf32", "NaNf64"]

/-- Takes the word of a number off the front. -/
def realWord? (cs : List Char) : Option (Ron × List Char) :=
  realWords.findSome? fun w => (word? w cs).map (.real w.toList, ·)

/-- Takes a real number off the front. -/
def real? (cs : List Char) : Option (Ron × List Char) :=
  match realWord? (sign cs).2 with
  | some found => some found
  | none =>
    let (spelling, rest) := cs.span isRealChar
    match dropUnderscores? false spelling with
    | some ds => if isReal ds then some (.real ds, skipRealSuffix rest) else none
    | none => none

/-- Takes a number off the front: a real one if more of the text can belong to it. -/
def number? (cs : List Char) : Option (Ron × List Char) :=
  let unsigned := (sign cs).2
  if (unsigned.takeWhile isWholeChar).length < (unsigned.takeWhile isRealChar).length then real? cs
  else (integer? cs).orElse fun _ => real? cs

end ProcessNet.Ron
