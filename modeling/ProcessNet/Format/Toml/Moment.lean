/-
Moments in TOML: a day of the calendar, a time of the day, or both with an offset.
-/
import ProcessNet.Text.CodePoint

namespace ProcessNet.Toml

/-- The number of two digits. -/
def twoDigits? : List Char → Option Nat
  | [a, b] => if a.isDigit && b.isDigit then Text.ofDigits? 10 [a, b] else none
  | _ => none

/-- Two digits that spell a number in the given bounds. -/
def inBounds (low high : Nat) (cs : List Char) : Bool :=
  (twoDigits? cs).any fun n => low ≤ n && n ≤ high

/-! ## Days -/

def isLeapYear (year : Nat) : Bool := year % 4 = 0 && (year % 100 ≠ 0 || year % 400 = 0)

/-- The number of days in a month. -/
def daysIn (year month : Nat) : Nat :=
  if month = 2 then if isLeapYear year then 29 else 28
  else if month ∈ [4, 6, 9, 11] then 30
  else 31

/-- Whether the characters spell a day. -/
def isDay : List Char → Bool
  | [a, b, c, d, '-', e, f, '-', g, h] =>
    match twoDigits? [a, b], twoDigits? [c, d], twoDigits? [e, f] with
    | some century, some year, some month =>
      1 ≤ month && month ≤ 12 && inBounds 1 (daysIn (100 * century + year) month) [g, h]
    | _, _, _ => false
  | _ => false

/-! ## Times -/

/-- Whether the characters spell a part of a second behind its point, or nothing. -/
def isPartOfSecond : List Char → Bool
  | [] => true
  | '.' :: ds => !ds.isEmpty && ds.all Char.isDigit
  | _ => false

/-- Whether the characters spell seconds behind their colon, or nothing. -/
def areSeconds : List Char → Bool
  | [] => true
  | ':' :: a :: b :: rest => inBounds 0 60 [a, b] && isPartOfSecond rest
  | _ => false

/-- Whether the characters spell a time of the day. -/
def isTime : List Char → Bool
  | a :: b :: ':' :: c :: d :: rest =>
    inBounds 0 23 [a, b] && inBounds 0 59 [c, d] && areSeconds rest
  | _ => false

/-- Whether the characters spell an offset, or nothing. -/
def isOffset : List Char → Bool
  | [] => true
  | ['Z'] | ['z'] => true
  | [s, a, b, ':', c, d] =>
    (s == '+' || s == '-') && inBounds 0 23 [a, b] && inBounds 0 59 [c, d]
  | _ => false

/-- Whether the characters spell a time of the day with an offset, if there is one. -/
def isTimeWithOffset (cs : List Char) : Bool :=
  let (time, offset) := cs.span fun c => c.isDigit || c == ':' || c == '.'
  isTime time && isOffset offset

/-! ## Moments -/

/-- Whether the characters spell a day, a time, or a day with a time. -/
def isMoment (cs : List Char) : Bool :=
  isTime cs || isDay cs ||
    match cs.drop 10 with
    | c :: time => isDay (cs.take 10) && (c == 'T' || c == 't' || c == ' ') && isTimeWithOffset time
    | [] => false

end ProcessNet.Toml
