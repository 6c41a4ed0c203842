/-
Numbers in TOML: whole numbers in four bases, decimal numbers with a fraction or a power of ten, and
words for the others. Single underscores may stand between digits.
-/
import ProcessNet.Format.Toml.Basic
import ProcessNet.Text.CodePoint

namespace ProcessNet.Toml

/-- Digits with single underscores between them. -/
def digits? (isDigit : Char → Bool) (cs : List Char) : Option (List Char) :=
  match cs with
  | [] => none
  | c :: rest => if isDigit c then go rest else none
where
  go : List Char → Option (List Char)
    | [] => some (cs.filter (· ≠ '_'))
    | '_' :: c :: rest => if isDigit c then go rest else none
    | c :: rest => if isDigit c then go rest else none

/-- The number that digits spell in a base. -/
def inBase? (base : Nat) (cs : List Char) : Option Nat :=
  (digits? (fun c => (Text.digitIn? base c).isSome) cs).bind (Text.ofDigits? base)

/-- Digits of a decimal number without needless zeros in front. -/
def wholeDigits? (cs : List Char) : Option (List Char) :=
  match cs with
  | '0' :: _ :: _ => none
  | cs => digits? Char.isDigit cs

/-- Takes a sign off the front, if there is one, as a factor. -/
def sign : List Char → Int × List Char
  | '-' :: cs => (-1, cs)
  | '+' :: cs => (1, cs)
  | cs => (1, cs)

/-- A whole number: only decimal ones may have a sign. -/
def integer? (cs : List Char) : Option Int :=
  match cs with
  | '0' :: 'x' :: ds => (inBase? 16 ds).map Int.ofNat
  | '0' :: 'o' :: ds => (inBase? 8 ds).map Int.ofNat
  | '0' :: 'b' :: ds => (inBase? 2 ds).map Int.ofNat
  | cs =>
    let (factor, ds) := sign cs
    ((wholeDigits? ds).bind (Text.ofDigits? 10)).map fun n => factor * n

/-- The digits behind a point, none if there is no point. -/
def fraction? : List Char → Option (List Char)
  | [] => some []
  | _ :: ds => digits? Char.isDigit ds

/-- The power behind its mark, zero if there is no mark. -/
def power? : List Char → Option Int
  | [] => some 0
  | _ :: cs =>
    let (factor, ds) := sign cs
    (inBase? 10 ds).map fun n => factor * n

/-- A number with a fraction, a power of ten or both. -/
def decimal? (cs : List Char) : Option Toml := do
  let (factor, cs) := sign cs
  let (digits, power) := cs.span fun c => c != 'e' && c != 'E'
  let (whole, fraction) := digits.span (· ≠ '.')
  if fraction.isEmpty && power.isEmpty then none
  let whole ← wholeDigits? whole
  let fraction ← fraction? fraction
  let mantissa ← Text.ofDigits? 10 (whole ++ fraction)
  return .decimal (factor * mantissa) ((← power? power) - fraction.length)

/-- The word for a number that digits cannot spell. -/
def special? (cs : List Char) : Option Toml :=
  if (sign cs).2 ∈ [['i', 'n', 'f'], ['n', 'a', 'n']] then some (.special cs) else none

/-- The number that the characters spell. -/
def number? (cs : List Char) : Option Toml :=
  ((integer? cs).map .integer).orElse fun _ => (decimal? cs).orElse fun _ => special? cs

end ProcessNet.Toml
