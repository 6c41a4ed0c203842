/-
Markings: how many tokens lie on each place. A marking is kept as a list of entries in ascending
order of places. The operations store no zero; a marking read from a document may hold some, and
they count as entries but not as tokens.
-/
import ProcessNet.Fault
import ProcessNet.Identifier

namespace ProcessNet

/-- A token count takes at most so many bits. -/
def countBits : Nat := 64

/-- The largest token count, `2 ^ countBits - 1`. -/
def maxCount : Nat := UInt64.size - 1

/-- A finite number of tokens on each place. -/
structure Marking where
  /-- The places with an entry, ascending. -/
  entries : List (PlaceId × Nat) := []
deriving DecidableEq, Hashable, Repr, Inhabited

namespace Marking

instance : EmptyCollection Marking := ⟨{}⟩

/-- The number of entries. -/
def size (m : Marking) : Nat := m.entries.length

def isEmpty (m : Marking) : Bool := m.entries.isEmpty

/-- The places with an entry, ascending. -/
def places (m : Marking) : List PlaceId := m.entries.map (·.1)

/-- The number of tokens on `p`. -/
def tokens (m : Marking) (p : PlaceId) : Nat := (m.entries.lookup p).getD 0

/-- Whether `p` has an entry. -/
def contains (m : Marking) (p : PlaceId) : Bool := (m.entries.lookup p).isSome

/-- Gives `p` an entry of `n`, in its place in the order. -/
def insertEntry (p : PlaceId) (n : Nat) : List (PlaceId × Nat) → List (PlaceId × Nat)
  | [] => [(p, n)]
  | (q, k) :: es =>
    if p.number < q.number then (p, n) :: (q, k) :: es
    else if p.number = q.number then (p, n) :: es
    else (q, k) :: insertEntry p n es

def eraseEntry (p : PlaceId) (es : List (PlaceId × Nat)) : List (PlaceId × Nat) :=
  es.filter (·.1 ≠ p)

/-- Puts exactly `n` tokens on `p`. -/
def set (m : Marking) (p : PlaceId) (n : Nat) : Marking :=
  if n = 0 then ⟨eraseEntry p m.entries⟩ else ⟨insertEntry p n m.entries⟩

/-- Stores `n` for `p` as it stands, zero included. -/
def store (m : Marking) (p : PlaceId) (n : Nat) : Marking := ⟨insertEntry p n m.entries⟩

/-- Adds `n` tokens to `p`. -/
def add (m : Marking) (p : PlaceId) (n : Nat) : Except Fault Marking :=
  if m.tokens p + n ≤ maxCount then .ok (m.set p (m.tokens p + n)) else .error .countOverflow

/-- Takes `n` tokens from `p`, or all of them if there are fewer. -/
def remove (m : Marking) (p : PlaceId) (n : Nat) : Marking := m.set p (m.tokens p - n)

/-- Drops `p` from the marking; the answer is what it held. -/
def take (m : Marking) (p : PlaceId) : Nat × Marking := (m.tokens p, ⟨eraseEntry p m.entries⟩)

/-- Adds all of the listed tokens. -/
def addAll (m : Marking) : List (PlaceId × Nat) → Except Fault Marking
  | [] => .ok m
  | (p, n) :: es =>
    match m.add p n with
    | .ok m => m.addAll es
    | .error f => .error f

/-- Takes all of the listed tokens, as far as they are there. -/
def removeAll (m : Marking) : List (PlaceId × Nat) → Marking
  | [] => m
  | (p, n) :: es => (m.remove p n).removeAll es

/-- Empties all of the listed places. -/
def clearAll (m : Marking) : List PlaceId → Marking
  | [] => m
  | p :: ps => (m.set p 0).clearAll ps

/-- The marking with the listed counts; counts of one place add up. -/
def ofList (l : List (PlaceId × Nat)) : Except Fault Marking := addAll ∅ l

/-- All tokens of both markings. -/
def plus (a b : Marking) : Except Fault Marking := a.addAll b.entries

/-- The tokens of `a` without those of `b`, at no place fewer than none. -/
def minus (a b : Marking) : Marking := a.removeAll b.entries

/-- Every entry of `a` has at least as many tokens in `b`. -/
def Covered (a b : Marking) : Prop := ∀ e ∈ a.entries, e.2 ≤ b.tokens e.1

instance (a b : Marking) : Decidable (a.Covered b) :=
  inferInstanceAs (Decidable (∀ e ∈ a.entries, e.2 ≤ b.tokens e.1))

/-- How two markings compare place by place, if they do. -/
def compare? (a b : Marking) : Option Ordering :=
  if a.Covered b then if b.Covered a then some .eq else some .lt
  else if b.Covered a then some .gt else none

/-- The canonical markings: entries strictly ascending, and no zero among them. -/
structure Canonical (m : Marking) : Prop where
  sorted : m.entries.Pairwise (fun a b => a.1.number < b.1.number)
  positive : ∀ e ∈ m.entries, 0 < e.2

end Marking

end ProcessNet
