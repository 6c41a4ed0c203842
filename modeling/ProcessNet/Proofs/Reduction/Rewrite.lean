/-
One committed step of a reduction as a relation between accepting nets: each rule has its own case, which
holds the match and says what is left of the net and of the two markings. Whatever is claimed of whole
reductions is shown of these steps one by one. Here: a step leaves a consistent net, smaller than before
and lighter, and it adds nothing to the tokens of the initial marking.
-/
import Mathlib.Logic.Relation
import ProcessNet.Proofs.Marking.Total
import ProcessNet.Proofs.Reduction.Edit

namespace ProcessNet

namespace AcceptingNet

/-! ## Twins -/

/-- `a'` is `a` without the silent transition `d`, which has the arcs of the silent transition `k`. -/
structure TwinTransitionGone (k d : TransitionId) (a a' : AcceptingNet) : Prop where
  ne : k ≠ d
  kept : a.net.isSilent k
  silent : a.net.isSilent d
  same : a.net.SameArcs d a.net k
  gone : a.net.TransitionGone d a'.net
  initial : a'.initial = a.initial
  final : a'.final = a.final

/-- `a'` is `a` without the place `d`, which has the arcs and the tokens of the place `k`. -/
structure TwinPlaceGone (k d : PlaceId) (a a' : AcceptingNet) : Prop where
  ne : k ≠ d
  same : ∀ t κ, Arc.mk d t κ ∈ a.net.arcs ↔ Arc.mk k t κ ∈ a.net.arcs
  sameInitial : a.initial.tokens d = a.initial.tokens k
  sameFinal : a.final.tokens d = a.final.tokens k
  gone : a.net.PlaceGone d a'.net
  initial : a'.initial = (a.initial.take d).2
  final : a'.final = (a.final.take d).2

/-- The listed nodes are dropped one after the other. -/
inductive Dropped {ι : Type} (Drop : ι → AcceptingNet → AcceptingNet → Prop) :
    List ι → AcceptingNet → AcceptingNet → Prop
  | nil (a : AcceptingNet) : Dropped Drop [] a a
  | cons {d : ι} {l : List ι} {a a₁ a' : AcceptingNet} :
    Drop d a a₁ → Dropped Drop l a₁ a' → Dropped Drop (d :: l) a a'

/-! ## Steps -/

/-- A step of a reduction leads from `a` to the last accepting net. -/
inductive Rewritten (a : AcceptingNet) : ReductionStep → AcceptingNet → Prop
  | seriesTransitions {p : PlaceId} {m : SeriesTransitions} {n : Net}
    (hm : a.seriesTransitionsAt? p = some m) (h : a.net.Fused p m.second n) :
    Rewritten a (.seriesTransitionsFused (a.net.placeName p) (a.net.transitionName m.second)
      (a.net.transitionName m.first)) ⟨n, a.initial, a.final⟩
  | seriesPlaces {t : TransitionId} {m : SeriesPlaces} {n : Net} {initial : Marking}
    (hm : a.seriesPlacesAt? t = some m) (h : a.net.Fused m.first t n)
    (hmove : a.initial.moveAll m.first m.second = .ok initial) :
    Rewritten a (.seriesPlacesFused (a.net.placeName m.first) (a.net.transitionName t)
      (a.net.placeName m.second)) ⟨n, initial, a.final⟩
  | parallelTransitions {m : Duplicates TransitionId} {a' : AcceptingNet} (hne : m.removed ≠ [])
    (h : Dropped (TwinTransitionGone m.kept) m.removed a a') :
    Rewritten a (.parallelTransitionsFused (a.net.transitionName m.kept)
      (m.removed.map a.net.transitionName)) a'
  | parallelPlaces {m : Duplicates PlaceId} {a' : AcceptingNet} (hne : m.removed ≠ [])
    (h : Dropped (TwinPlaceGone m.kept) m.removed a a') :
    Rewritten a (.parallelPlacesFused (a.net.placeName m.kept) (m.removed.map a.net.placeName)) a'
  | selfLoopTransition {t : TransitionId} {p : PlaceId} {n : Net}
    (hm : a.selfLoopTransitionAt? t = some p) (h : a.net.TransitionGone t n) :
    Rewritten a (.selfLoopTransitionRemoved (a.net.transitionName t) (a.net.placeName p))
      ⟨n, a.initial, a.final⟩
  | selfLoopPlace {p : PlaceId} {n : Net} (hm : a.isSelfLoopPlace p) (h : a.net.PlaceGone p n) :
    Rewritten a (.selfLoopPlaceRemoved (a.net.placeName p)) ⟨n, (a.initial.take p).2, a.final⟩
  | silentStep {t : TransitionId} {m : SilentStep} {n : Net} (hm : a.silentStepAt? t = some m)
    (h : a.net.Fused m.place t n) :
    Rewritten a (.abstracted (a.net.placeName m.place) (a.net.transitionName t))
      ⟨n, a.initial, a.final⟩
  | reset {p : PlaceId} {t : TransitionId} {n : Net} (hreset : Arc.reset p t ∈ a.net.arcs)
    (hin : Arc.inhibitor p t ∈ a.net.arcs) (h : a.net.ResetGone p t n) :
    Rewritten a (.resetArcRemoved (a.net.placeName p) (a.net.transitionName t))
      ⟨n, a.initial, a.final⟩

end AcceptingNet

/-! ## What each step does -/

namespace Net

variable {n n' : Net} {p : PlaceId} {t u : TransitionId}

theorem Fused.smaller (h : n.Fused p u n') : n'.measure.Smaller n.measure :=
  .inl (Nat.lt_of_succ_le (Nat.le_of_eq h.placeCount))

theorem PlaceGone.smaller (h : n.PlaceGone p n') : n'.measure.Smaller n.measure :=
  .inl (Nat.lt_of_succ_le (Nat.le_of_eq h.placeCount))

theorem TransitionGone.smaller (h : n.TransitionGone t n') : n'.measure.Smaller n.measure :=
  .inr ⟨h.placeCount, .inl (Nat.lt_of_succ_le (Nat.le_of_eq h.transitionCount))⟩

theorem ResetGone.smaller (h : n.ResetGone p t n') : n'.measure.Smaller n.measure :=
  .inr ⟨h.nodes.placeCount, .inr ⟨h.nodes.transitionCount,
    Nat.lt_of_succ_le (Nat.le_of_eq h.arcCount)⟩⟩

end Net

namespace AcceptingNet

/-- `a'` has a consistent net, smaller and lighter than that of `a`, and no more tokens at the start. -/
structure Lighter (a a' : AcceptingNet) : Prop where
  consistent : a'.net.Consistent
  smaller : a'.net.measure.Smaller a.net.measure
  weight : a'.net.weight < a.net.weight
  total : a'.initial.total ≤ a.initial.total

variable {a a' a'' : AcceptingNet}

theorem Lighter.trans (h : Lighter a a') (k : Lighter a' a'') : Lighter a a'' :=
  ⟨k.consistent, k.smaller.trans h.smaller, k.weight.trans h.weight, k.total.trans h.total⟩

theorem total_take_le (m : Marking) (p : PlaceId) : (m.take p).2.total ≤ m.total :=
  Nat.le_of_add_right_le (Nat.le_of_eq (m.total_take p))

theorem TwinTransitionGone.lighter {k d : TransitionId} (h : TwinTransitionGone k d a a') :
    Lighter a a' :=
  ⟨h.gone.consistent, h.gone.smaller, h.gone.weight_lt, Nat.le_of_eq (congrArg _ h.initial)⟩

theorem TwinPlaceGone.lighter {k d : PlaceId} (h : TwinPlaceGone k d a a') : Lighter a a' :=
  ⟨h.gone.consistent, h.gone.smaller, h.gone.weight_lt, h.initial ▸ total_take_le _ _⟩

theorem Dropped.imp {ι : Type} {Drop Drop' : ι → AcceptingNet → AcceptingNet → Prop} {l : List ι}
    (h : Dropped Drop l a a') (himp : ∀ d a a', Drop d a a' → Drop' d a a') :
    Dropped Drop' l a a' := by
  induction h with
  | nil => exact .nil _
  | cons hd _ ih => exact .cons (himp _ _ _ hd) ih

theorem Dropped.lighter {ι : Type} {Drop : ι → AcceptingNet → AcceptingNet → Prop}
    (hdrop : ∀ d a a', Drop d a a' → Lighter a a') {l : List ι} (hl : l ≠ [])
    (h : Dropped Drop l a a') : Lighter a a' := by
  induction h with
  | nil => exact absurd rfl hl
  | @cons d l a a₁ a' hd hrest ih =>
    cases l with
    | nil =>
      cases hrest
      exact hdrop d a _ hd
    | cons e l => exact (hdrop d a a₁ hd).trans (ih (List.cons_ne_nil e l))

theorem Rewritten.lighter {step : ReductionStep} (hmirrored : a.net.incidence.Mirrored)
    (h : a.Rewritten step a') : Lighter a a' := by
  cases h with
  | seriesTransitions _ h | silentStep _ h =>
    exact ⟨h.consistent, h.smaller, h.weight_lt, Nat.le_refl _⟩
  | @seriesPlaces t m n initial hm h hmove =>
    have htarget := (seriesPlacesAt?_eq_some hmirrored hm).2.2 m.second
    have hne : m.second ≠ m.first := fun he => h.noLoop (he ▸ htarget.2 rfl)
    exact ⟨h.consistent, h.smaller, h.weight_lt, Nat.le_of_eq (Marking.total_moveAll hne hmove)⟩
  | parallelTransitions hne h => exact h.lighter (fun _ _ _ hd => hd.lighter) hne
  | parallelPlaces hne h => exact h.lighter (fun _ _ _ hd => hd.lighter) hne
  | selfLoopTransition _ h => exact ⟨h.consistent, h.smaller, h.weight_lt, Nat.le_refl _⟩
  | selfLoopPlace _ h => exact ⟨h.consistent, h.smaller, h.weight_lt, total_take_le _ _⟩
  | reset hreset _ h => exact ⟨h.consistent, h.smaller, h.weight_lt hreset, Nat.le_refl _⟩

end AcceptingNet

namespace Reduction

/-! ## Reductions as sequences of steps -/

/-- One step is taken, and `commit` records it. -/
def Rewrite (s s' : Reduction) : Prop :=
  ∃ step, s.accepting.Rewritten step s'.accepting ∧ s'.steps = s.steps ++ [step]

/-- Some steps are taken one after the other. -/
def Rewrites : Reduction → Reduction → Prop := Relation.ReflTransGen Rewrite

variable {s s' s'' : Reduction}

theorem Rewrites.refl (s : Reduction) : Rewrites s s := Relation.ReflTransGen.refl

theorem Rewrites.tail (h : Rewrites s s') (k : Rewrite s' s'') : Rewrites s s'' :=
  Relation.ReflTransGen.tail h k

theorem Rewrite.lighter (hs : s.net.Consistent) (h : Rewrite s s') :
    s.accepting.Lighter s'.accepting := by
  obtain ⟨step, hstep, _⟩ := h
  exact hstep.lighter hs.mirrored

/-- What every step keeps of consistent nets, any number of steps keeps. -/
theorem Rewrites.induct {I : Reduction → Prop} (hs : s.net.Consistent) (h : Rewrites s s')
    (hI : I s) (hstep : ∀ s s', s.net.Consistent → I s → Rewrite s s' → I s') :
    s'.net.Consistent ∧ I s' := by
  induction h with
  | refl => exact ⟨hs, hI⟩
  | tail _ hlast ih =>
    obtain ⟨hs', hI'⟩ := ih
    exact ⟨(hlast.lighter hs').consistent, hstep _ _ hs' hI' hlast⟩

theorem Rewrites.consistent (h : Rewrites s s') (hs : s.net.Consistent) : s'.net.Consistent :=
  (h.induct (I := fun _ => True) hs trivial fun _ _ _ _ _ => trivial).1

end Reduction

end ProcessNet
