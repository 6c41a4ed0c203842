/-
The settings of the way from a process graph to a reduced net, read from JSON or TOML. Every
setting has a default.
-/
import ProcessNet.Format.Json.Document
import ProcessNet.Format.Json.Reader
import ProcessNet.Format.Toml.Document
import ProcessNet.Format.Toml.Reader
import ProcessNet.Reduction.Rule

namespace ProcessNet

open DocumentReader DocumentWriter

variable {τ : Type}

/-- Which optional rules to apply. -/
structure ReductionSettings where
  parallelTransitions : Bool := false
  parallelPlaces : Bool := false
  abstraction : Bool := false
  exhaustiveLimit : Nat := 64
deriving DecidableEq, Repr, Inhabited

namespace ReductionSettings

/-- The reduction options without a checker. -/
def toOptions (s : ReductionSettings) : ReductionOptions where
  parallelTransitions := s.parallelTransitions
  parallelPlaces := s.parallelPlaces
  abstraction := s.abstraction
  exhaustiveLimit := s.exhaustiveLimit

def fields : List String :=
  ["parallel_transitions", "parallel_places", "abstraction", "exhaustive_limit"]

def encode [DocumentWriter τ] (s : ReductionSettings) : τ :=
  ofFields
    [("parallel_transitions", ofBool s.parallelTransitions),
      ("parallel_places", ofBool s.parallelPlaces),
      ("abstraction", ofBool s.abstraction),
      ("exhaustive_limit", ofNat s.exhaustiveLimit)]

def decode? [DocumentReader τ] (v : τ) : Option ReductionSettings := do
  let r ← toFields? "ReductionSettings" fields v
  let parallelTransitions ← r.withDefault? "parallel_transitions" false toBool?
  let parallelPlaces ← r.withDefault? "parallel_places" false toBool?
  let abstraction ← r.withDefault? "abstraction" false toBool?
  let exhaustiveLimit ← r.withDefault? "exhaustive_limit" 64 (toUnsigned? 64)
  return { parallelTransitions, parallelPlaces, abstraction, exhaustiveLimit }

end ReductionSettings

/-- What to do with a process graph on its way to a net. -/
structure Settings where
  /-- Label the transitions of boundary events. -/
  includeEvents : Bool := true
  reduce : Bool := true
  /-- Refuse nets whose final marking is not reached. -/
  checkSoundness : Bool := false
  /-- The most states to look at when the final marking is searched for. -/
  stateLimit : Option Nat := some 100000
  reduction : ReductionSettings := {}
deriving DecidableEq, Repr, Inhabited

namespace Settings

def fields : List String :=
  ["include_events", "reduce", "check_soundness", "state_limit", "reduction"]

def encode [DocumentWriter τ] (s : Settings) : τ :=
  ofFields
    [("include_events", ofBool s.includeEvents), ("reduce", ofBool s.reduce),
      ("check_soundness", ofBool s.checkSoundness),
      ("state_limit", match s.stateLimit with
        | some n => present (ofNat n)
        | none => absent),
      ("reduction", s.reduction.encode)]

/-- A limit, or none. -/
def decodeLimit? [DocumentReader τ] (v : τ) : Option (Option Nat) :=
  match toOption? v with
  | none => none
  | some none => some none
  | some (some v) => (toUnsigned? 64 v).map some

def decode? [DocumentReader τ] (v : τ) : Option Settings := do
  let r ← toFields? "Settings" fields v
  let includeEvents ← r.withDefault? "include_events" true toBool?
  let reduce ← r.withDefault? "reduce" true toBool?
  let checkSoundness ← r.withDefault? "check_soundness" false toBool?
  let stateLimit ← r.withDefault? "state_limit" (some 100000) decodeLimit?
  let reduction ← r.withDefault? "reduction" {} ReductionSettings.decode?
  return { includeEvents, reduce, checkSoundness, stateLimit, reduction }

/-- The settings in a JSON text. -/
def ofJson? (s : String) : Option Settings := (Json.parse? s).bind decode?

/-- The settings in a TOML text. -/
def ofToml? (s : String) : Option Settings := (Toml.parse? s).bind decode?

end Settings

end ProcessNet
