/-
Code points: the digits among them, numbers spelled by digits in a base of at most sixteen, and
sets of code points given by ranges.
-/

namespace ProcessNet.Text

/-! ## Digits -/

/-- The value of a digit; letters of both cases follow nine. -/
def digit? (c : Char) : Option Nat :=
  if c.isDigit then some (c.toNat - '0'.toNat)
  else if 'a' ≤ c ∧ c ≤ 'f' then some (c.toNat - 'a'.toNat + 10)
  else if 'A' ≤ c ∧ c ≤ 'F' then some (c.toNat - 'A'.toNat + 10)
  else none

/-- The value of a character that is a digit of the base. -/
def digitIn? (base : Nat) (c : Char) : Option Nat := (digit? c).filter (· < base)

/-- The number that digits of a base spell; no digits spell zero. -/
def ofDigits? (base : Nat) (cs : List Char) : Option Nat :=
  cs.foldlM (fun n c => (digitIn? base c).map (base * n + ·)) 0

/-- The character of a code point. -/
def scalar? (n : Nat) : Option Char := if n.isValidChar then some (Char.ofNat n) else none

/-! ## Ranges -/

/-- Whether the number lies in one of the ranges, both ends included. -/
def inRanges (ranges : List (Nat × Nat)) (n : Nat) : Bool :=
  ranges.any fun (low, high) => low ≤ n && n ≤ high

end ProcessNet.Text
