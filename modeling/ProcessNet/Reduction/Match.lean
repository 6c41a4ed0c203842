/-
Where the rules match. Each rule has a test at one anchor, a place or a transition, that answers
what the rule would act on there.
-/
import ProcessNet.Net.Accepting
import ProcessNet.Net.Adjacent

namespace ProcessNet.AcceptingNet

open Identifier

variable (a : AcceptingNet)

/-- Whether a place occurs in one of the two markings. -/
def isMarked (p : PlaceId) : Bool := a.initial.contains p || a.final.contains p

/-- No element in common. -/
def disjoint {α : Type} [BEq α] (l m : List α) : Bool := l.all fun x => !m.contains x

/-- Whether the same transitions empty two places, and the same ones need them empty. -/
def sameGuards (p q : PlaceId) : Bool :=
  a.net.resetters p = a.net.resetters q && a.net.inhibited p = a.net.inhibited q

/-- The only input place of a transition without other arcs into it. -/
def soleInput? (t : TransitionId) : Option PlaceId :=
  match a.net.transitionInArcs t with
  | [(p, .input)] => some p
  | _ => none

/-- The only output place of a transition. -/
def soleOutput? (t : TransitionId) : Option PlaceId :=
  match a.net.transitionOutArcs t with
  | [p] => some p
  | _ => none

/-! ## Series -/

/-- Two transitions in series around an unmarked place. -/
structure SeriesTransitions where
  /-- The transition that puts tokens into the place. -/
  first : TransitionId
  /-- The silent transition that only takes them away. -/
  second : TransitionId
deriving DecidableEq, Repr

/-- The transitions in series around `p`: `p` is unmarked, has one producer and one consumer and no
other arcs; the consumer is silent and has no other arc into it; the two transitions share no
output place, and no output place of the consumer is ever emptied or needed empty. -/
def seriesTransitionsAt? (p : PlaceId) : Option SeriesTransitions :=
  if !a.net.hasPlace p || a.isMarked p then none
  else
    match a.net.placeInArcs p, a.net.placeOutArcs p with
    | [t], [(u, .input)] =>
      if t ≠ u ∧ a.net.isSilent u ∧ (a.net.transitionInArcs u).length = 1
          ∧ disjoint (a.net.postset t) (a.net.postset u)
          ∧ (a.net.postset u).all (fun q =>
            (a.net.resetters q).isEmpty && (a.net.inhibited q).isEmpty) then
        some ⟨t, u⟩
      else none
    | _, _ => none

/-- Two places in series around a silent transition. -/
structure SeriesPlaces where
  first : PlaceId
  second : PlaceId
deriving DecidableEq, Repr

/-- The places in series around `t`: `t` is silent and only moves a token from one place to another;
nothing else takes tokens from the first place, which is not in the final marking; the places have
no producer in common and the same guards. -/
def seriesPlacesAt? (t : TransitionId) : Option SeriesPlaces :=
  if !a.net.isSilent t then none
  else
    match a.soleInput? t, a.soleOutput? t with
    | some p, some q =>
      if p ≠ q ∧ !a.final.contains p ∧ a.net.consumers p = [t]
          ∧ disjoint (a.net.producers p) (a.net.producers q) ∧ a.sameGuards p q then
        some ⟨p, q⟩
      else none
    | _, _ => none

/-! ## Parallels -/

/-- The members of a group of equals with the first one set apart. -/
structure Duplicates (ι : Type) where
  kept : ι
  removed : List ι
deriving DecidableEq, Repr

/-- The group that an element leads: the elements with its key, if it is the first of several. -/
def groupLedBy? {ι κ : Type} [DecidableEq ι] [DecidableEq κ] (key : ι → κ) (l : List ι) (i : ι) :
    Option (Duplicates ι) :=
  match l.filter (key · = key i) with
  | kept :: removed => if kept = i ∧ removed ≠ [] then some ⟨kept, removed⟩ else none
  | [] => none

/-- Groups of at least two elements with equal keys, by their first elements. -/
def duplicates {ι κ : Type} [DecidableEq ι] [DecidableEq κ] (key : ι → κ) (l : List ι) :
    List (Duplicates ι) :=
  l.filterMap (groupLedBy? key l)

/-- The arcs of a transition by kind. -/
def transitionShape (t : TransitionId) : List (List PlaceId) :=
  [a.net.preset t, a.net.postset t, a.net.resetPlaces t, a.net.inhibitorPlaces t]

/-- The silent transitions with equal arcs. -/
def parallelTransitions : List (Duplicates TransitionId) :=
  duplicates a.transitionShape (a.net.transitionIds.filter a.net.isSilent)

/-- The arcs of a place by kind, and its tokens in both markings. -/
def placeShape (p : PlaceId) : List (List TransitionId) × Nat × Nat :=
  ([a.net.producers p, a.net.consumers p, a.net.resetters p, a.net.inhibited p],
    a.initial.tokens p, a.final.tokens p)

/-- The places with equal arcs and equal tokens. -/
def parallelPlaces : List (Duplicates PlaceId) := duplicates a.placeShape a.net.placeIds

/-! ## Self-loops -/

/-- The place of a silent transition that only takes a token from it and puts it back, if the place
has at least two other producers. -/
def selfLoopTransitionAt? (t : TransitionId) : Option PlaceId :=
  if !a.net.isSilent t then none
  else
    match a.soleInput? t, a.soleOutput? t with
    | some p, some q =>
      if p = q ∧ 2 ≤ ((a.net.producers p).filter (· ≠ t)).length then some p else none
    | _, _ => none

/-- Whether a place holds a token that is put back whenever it is taken: `p` is live and initially
marked, is not in the final marking and nowhere needed empty, and the transitions that take from
it or empty it are exactly those that put a token into it. -/
def isSelfLoopPlace (p : PlaceId) : Bool :=
  let users := ascending ((a.net.placeOutArcs p).map (·.1))
  a.net.hasPlace p && a.initial.tokens p ≠ 0 && !a.final.contains p
    && (a.net.inhibited p).isEmpty
    && users.all (a.net.producers p).contains
    && ascending (a.net.resetters p ++ users) = a.net.producers p

/-! ## Silent steps -/

/-- A silent step that can be skipped. -/
structure SilentStep where
  /-- The place in front of the step. -/
  place : PlaceId
  producers : List TransitionId
  /-- The places behind the step. -/
  targets : List PlaceId
deriving DecidableEq, Repr

/-- The silent step at `t`: `t` is silent and only takes a token from one unmarked place, which
nothing else takes tokens from; place and step have producers and targets, no loop joins them, no
producer reaches a target already, and each target has the guards of the place. -/
def silentStepAt? (t : TransitionId) : Option SilentStep :=
  if !a.net.isSilent t then none
  else
    match a.soleInput? t with
    | some s =>
      let producers := a.net.producers s
      let targets := a.net.postset t
      if !a.isMarked s ∧ a.net.consumers s = [t] ∧ producers ≠ [] ∧ targets ≠ []
          ∧ t ∉ producers ∧ s ∉ targets
          ∧ producers.all (fun u => targets.all fun q => !a.net.hasArc (.output u q))
          ∧ targets.all (fun q => a.sameGuards q s) then
        some ⟨s, producers, targets⟩
      else none
    | none => none

/-! ## Reset arcs -/

/-- The places that a transition empties although it needs them empty to fire. -/
def needlessResets (t : TransitionId) : List PlaceId :=
  (a.net.resetPlaces t).filter (a.net.inhibitorPlaces t).contains

end ProcessNet.AcceptingNet
