/-
The catalogue of reduction rules and the options that choose among them.
-/
import ProcessNet.Net.Size
import ProcessNet.Text.Escape

namespace ProcessNet

/-- The reduction rules. -/
inductive Rule where
  /-- Fusion of series transitions. -/
  | fst
  /-- Fusion of series places. -/
  | fsp
  /-- Fusion of parallel transitions. -/
  | fpt
  /-- Fusion of parallel places. -/
  | fpp
  /-- Elimination of self-loop transitions. -/
  | elt
  /-- Elimination of self-loop places. -/
  | elp
  /-- Abstraction of silent steps. -/
  | a
  /-- Removal of needless reset arcs. -/
  | r
deriving DecidableEq, Repr, Inhabited

namespace Rule

/-- All rules, in the order in which they take their turns. -/
def order : List Rule := [.fst, .fsp, .fpt, .fpp, .elt, .elp, .a, .r]

/-- The short name of a rule. -/
def code : Rule → String
  | .fst => "FST"
  | .fsp => "FSP"
  | .fpt => "FPT"
  | .fpp => "FPP"
  | .elt => "ELT"
  | .elp => "ELP"
  | .a => "A"
  | .r => "R"

/-- The name of a rule in documents. -/
def name : Rule → String
  | .fst => "Fst"
  | .fsp => "Fsp"
  | .fpt => "Fpt"
  | .fpp => "Fpp"
  | .elt => "Elt"
  | .elp => "Elp"
  | .a => "A"
  | .r => "R"

/-- Rules that compare many nodes with each other; they run on small nets only. -/
def isExhaustive : Rule → Bool
  | .fpt | .fpp | .a => true
  | _ => false

end Rule

/-- One applied rule, told by the names of the nodes that it touched. -/
inductive ReductionStep where
  | seriesTransitionsFused (place transition into : String)
  | seriesPlacesFused (place transition into : String)
  | parallelTransitionsFused (kept : String) (removed : List String)
  | parallelPlacesFused (kept : String) (removed : List String)
  | selfLoopTransitionRemoved (transition place : String)
  | selfLoopPlaceRemoved (place : String)
  | abstracted (place transition : String)
  | resetArcRemoved (place transition : String)
deriving DecidableEq, Repr, Inhabited

namespace ReductionStep

def rule : ReductionStep → Rule
  | .seriesTransitionsFused _ _ _ => .fst
  | .seriesPlacesFused _ _ _ => .fsp
  | .parallelTransitionsFused _ _ => .fpt
  | .parallelPlacesFused _ _ => .fpp
  | .selfLoopTransitionRemoved _ _ => .elt
  | .selfLoopPlaceRemoved _ => .elp
  | .abstracted _ _ => .a
  | .resetArcRemoved _ _ => .r

/-- The step for reading. -/
def text (s : ReductionStep) : String :=
  let names := fun l => Text.bracketed (l.map Text.literal)
  match s with
  | .seriesTransitionsFused p t i =>
    Text.record "SeriesTransitionsFused"
      [("place", Text.literal p), ("transition", Text.literal t), ("into", Text.literal i)]
  | .seriesPlacesFused p t i =>
    Text.record "SeriesPlacesFused"
      [("place", Text.literal p), ("transition", Text.literal t), ("into", Text.literal i)]
  | .parallelTransitionsFused kept removed =>
    Text.record "ParallelTransitionsFused"
      [("kept", Text.literal kept), ("removed", names removed)]
  | .parallelPlacesFused kept removed =>
    Text.record "ParallelPlacesFused" [("kept", Text.literal kept), ("removed", names removed)]
  | .selfLoopTransitionRemoved t p =>
    Text.record "SelfLoopTransitionRemoved"
      [("transition", Text.literal t), ("place", Text.literal p)]
  | .selfLoopPlaceRemoved p => Text.record "SelfLoopPlaceRemoved" [("place", Text.literal p)]
  | .abstracted p t =>
    Text.record "Abstracted" [("place", Text.literal p), ("transition", Text.literal t)]
  | .resetArcRemoved p t =>
    Text.record "ResetArcRemoved" [("place", Text.literal p), ("transition", Text.literal t)]

end ReductionStep

/-- Why a reduction stopped. -/
inductive ReductionError where
  /-- A rule was applied and the net did not become smaller. -/
  | notSmaller (rule : Rule) (before after : NetSize)
  /-- The checker turned the reduced net down. -/
  | rejected (reason : String)
  | net (error : NetError)
deriving DecidableEq, Repr

def ReductionError.message : ReductionError → String
  | .notSmaller rule before after =>
    s!"{rule.code} rewrite did not shrink the net ({before.text} -> {after.text})"
  | .rejected reason => "validator rejected reduced net: " ++ reason
  | .net e => e.message

/-- A check that every net on the way has to pass. -/
abbrev Checker := Net → Except ReductionError Unit

/-- Which rules to apply, and what to check on the way. -/
structure ReductionOptions where
  parallelTransitions : Bool := false
  parallelPlaces : Bool := false
  abstraction : Bool := false
  /-- Exhaustive rules run only while places and transitions together are at most this many. -/
  exhaustiveLimit : Nat := 64
  checker : Option Checker := none

namespace ReductionOptions

/-- All optional rules. -/
def exhaustive : ReductionOptions where
  parallelTransitions := true
  parallelPlaces := true
  abstraction := true

/-- Whether a rule is asked for. -/
def enables (o : ReductionOptions) : Rule → Bool
  | .fpt => o.parallelTransitions
  | .fpp => o.parallelPlaces
  | .a => o.abstraction
  | _ => true

/-- Whether a rule has its turn on a net of the given size. -/
def runs (o : ReductionOptions) (size : NetSize) (rule : Rule) : Bool :=
  o.enables rule && (!rule.isExhaustive || size.places + size.transitions ≤ o.exhaustiveLimit)

/-- The options for reading. -/
def text (o : ReductionOptions) : String :=
  Text.record "ReductionOptions"
    [("parallel_transitions", toString o.parallelTransitions),
      ("parallel_places", toString o.parallelPlaces),
      ("abstraction", toString o.abstraction),
      ("exhaustive_limit", toString o.exhaustiveLimit),
      ("invariant_checker", toString o.checker.isSome)]

end ReductionOptions

/-- What a reduction did. -/
structure ReductionReport where
  /-- The applied rules in their order. -/
  steps : List ReductionStep := []
  /-- How often all rules had their turn. -/
  passes : Nat := 0
  /-- How often each rule was applied. -/
  applied : List (Rule × Nat) := []
deriving DecidableEq, Repr, Inhabited

namespace ReductionReport

/-- How often a rule was applied. -/
def count (report : ReductionReport) (rule : Rule) : Nat := (report.applied.lookup rule).getD 0

def total (report : ReductionReport) : Nat := report.steps.length

def isEmpty (report : ReductionReport) : Bool := report.steps.isEmpty

end ReductionReport

end ProcessNet
