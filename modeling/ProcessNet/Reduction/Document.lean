/-
Rules, steps, sizes and reports as documents.
-/
import ProcessNet.Format.Document
import ProcessNet.Reduction.Rule

namespace ProcessNet

open DocumentReader DocumentWriter

variable {τ : Type}

namespace Rule

def encode [DocumentWriter τ] (rule : Rule) : τ := bare rule.name

def decode? [DocumentReader τ] (v : τ) : Option Rule := toOneOf? name order v

end Rule

namespace NetSize

def decode? [DocumentReader τ] (v : τ) : Option NetSize := do
  let r ← toFields? "NetSize" ["places", "transitions", "arcs"] v
  let places ← r.required? "places" (toUnsigned? 64)
  let transitions ← r.required? "transitions" (toUnsigned? 64)
  let arcs ← r.required? "arcs" (toUnsigned? 64)
  return { places, transitions, arcs }

end NetSize

namespace ReductionStep

def encode [DocumentWriter τ] : ReductionStep → τ
  | .seriesTransitionsFused p t i =>
    holdingFields "SeriesTransitionsFused"
      [("place", ofText p), ("transition", ofText t), ("into", ofText i)]
  | .seriesPlacesFused p t i =>
    holdingFields "SeriesPlacesFused"
      [("place", ofText p), ("transition", ofText t), ("into", ofText i)]
  | .parallelTransitionsFused kept removed =>
    holdingFields "ParallelTransitionsFused"
      [("kept", ofText kept), ("removed", ofList (removed.map ofText))]
  | .parallelPlacesFused kept removed =>
    holdingFields "ParallelPlacesFused"
      [("kept", ofText kept), ("removed", ofList (removed.map ofText))]
  | .selfLoopTransitionRemoved t p =>
    holdingFields "SelfLoopTransitionRemoved" [("transition", ofText t), ("place", ofText p)]
  | .selfLoopPlaceRemoved p => holdingFields "SelfLoopPlaceRemoved" [("place", ofText p)]
  | .abstracted p t =>
    holdingFields "Abstracted" [("place", ofText p), ("transition", ofText t)]
  | .resetArcRemoved p t =>
    holdingFields "ResetArcRemoved" [("place", ofText p), ("transition", ofText t)]

/-- The fields of a step with a place, a transition and the node that they were fused into. -/
def decodeFusion? [DocumentReader τ] (make : String → String → String → ReductionStep) (v : τ) :
    Option ReductionStep := do
  let r ← toFields? "" ["place", "transition", "into"] v
  let place ← r.required? "place" toText?
  let transition ← r.required? "transition" toText?
  return make place transition (← r.required? "into" toText?)

/-- The fields of a step that keeps one node of a group. -/
def decodeGroup? [DocumentReader τ] (make : String → List String → ReductionStep) (v : τ) :
    Option ReductionStep := do
  let r ← toFields? "" ["kept", "removed"] v
  let kept ← r.required? "kept" toText?
  return make kept (← r.required? "removed" (toListOf? toText?))

/-- The fields of a step with two nodes. -/
def decodePair? [DocumentReader τ] (first second : String)
    (make : String → String → ReductionStep) (v : τ) : Option ReductionStep := do
  let r ← toFields? "" [first, second] v
  let x ← r.required? first toText?
  return make x (← r.required? second toText?)

/-- The step of the given name with its data. -/
def decodeHolding? [DocumentReader τ] (step : String) (v : τ) : Option ReductionStep :=
  match step with
  | "SeriesTransitionsFused" => decodeFusion? .seriesTransitionsFused v
  | "SeriesPlacesFused" => decodeFusion? .seriesPlacesFused v
  | "ParallelTransitionsFused" => decodeGroup? .parallelTransitionsFused v
  | "ParallelPlacesFused" => decodeGroup? .parallelPlacesFused v
  | "SelfLoopTransitionRemoved" => decodePair? "transition" "place" .selfLoopTransitionRemoved v
  | "SelfLoopPlaceRemoved" => do
    let r ← toFields? "" ["place"] v
    return .selfLoopPlaceRemoved (← r.required? "place" toText?)
  | "Abstracted" => decodePair? "place" "transition" .abstracted v
  | "ResetArcRemoved" => decodePair? "place" "transition" .resetArcRemoved v
  | _ => none

def decode? [DocumentReader τ] (v : τ) : Option ReductionStep :=
  match toChoice? v with
  | some (.holding step v) => decodeHolding? step v
  | _ => none

end ReductionStep

namespace ReductionReport

def encode [DocumentWriter τ] (report : ReductionReport) : τ :=
  ofFields
    [("steps", ofList (report.steps.map ReductionStep.encode)),
      ("passes", ofNat report.passes),
      ("applied", ofNamed (report.applied.map fun (rule, k) => (rule.name, ofNat k)))]

end ReductionReport

end ProcessNet
