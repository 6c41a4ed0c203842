/-
What a reduction removes, by name. In a consistent net no two live nodes share a name, so that a list of
names tells which nodes are gone: each step removes just the nodes that it reports, and steps in a row
remove what they report one after the other, nothing twice.
-/
import ProcessNet.Proofs.Reduction.Deadlock

namespace ProcessNet

/-! ## Reported names -/

namespace ReductionStep

/-- The places that `FPP` has found equal to a place that is kept. -/
def mergedPlaces : ReductionStep → List String
  | .parallelPlacesFused _ removed => removed
  | _ => []

/-- The transitions that `FPT` has found equal to a transition that is kept. -/
def mergedTransitions : ReductionStep → List String
  | .parallelTransitionsFused _ removed => removed
  | _ => []

/-- All places that the step reports as removed. -/
def removedPlaces : ReductionStep → List String
  | .seriesTransitionsFused place _ _ => [place]
  | .seriesPlacesFused place _ _ => [place]
  | .parallelTransitionsFused _ _ => []
  | .parallelPlacesFused _ removed => removed
  | .selfLoopTransitionRemoved _ _ => []
  | .selfLoopPlaceRemoved place => [place]
  | .abstracted place _ => [place]
  | .resetArcRemoved _ _ => []

/-- All transitions that the step reports as removed. -/
def removedTransitions : ReductionStep → List String
  | .seriesTransitionsFused _ transition _ => [transition]
  | .seriesPlacesFused _ transition _ => [transition]
  | .parallelTransitionsFused _ removed => removed
  | .parallelPlacesFused _ _ => []
  | .selfLoopTransitionRemoved transition _ => [transition]
  | .selfLoopPlaceRemoved _ => []
  | .abstracted _ transition => [transition]
  | .resetArcRemoved _ _ => []

end ReductionStep

/-! ## Nodes that are gone -/

/-- Of the nodes in `nodes`, those with the listed names are gone, and all others are as they were. -/
structure Lost {ι α : Type} (name : α → String) (removed : List String) (nodes nodes' : ι → Option α) :
    Prop where
  left : ∀ i x, nodes' i = some x ↔ nodes i = some x ∧ name x ∉ removed
  live : ∀ s ∈ removed, ∃ i x, nodes i = some x ∧ name x = s
  nodup : removed.Nodup

namespace Lost

variable {ι α : Type} {name : α → String} {nodes nodes' nodes'' : ι → Option α}
  {removed removed' : List String} {j : ι} {x : α}

theorem refl (name : α → String) (nodes : ι → Option α) : Lost name [] nodes nodes where
  left _ _ := (and_iff_left List.not_mem_nil).symm
  live _ hs := absurd hs List.not_mem_nil
  nodup := .nil

/-- What is reported later is reported for the first time. -/
theorem trans (h : Lost name removed nodes nodes') (k : Lost name removed' nodes' nodes'') :
    Lost name (removed ++ removed') nodes nodes'' where
  left i x := by
    rw [k.left, h.left, List.mem_append, not_or, and_assoc]
  live s hs := by
    rcases List.mem_append.1 hs with hs | hs
    · exact h.live s hs
    · obtain ⟨i, x, hx, rfl⟩ := k.live s hs
      exact ⟨i, x, ((h.left i x).1 hx).1, rfl⟩
  nodup := by
    refine List.nodup_append.2 ⟨h.nodup, k.nodup, ?_⟩
    rintro s hs _ hs' rfl
    -- what is reported later was live then, hence not reported before
    obtain ⟨i, x, hx, rfl⟩ := k.live s hs'
    exact ((h.left i x).1 hx).2 hs

/-- A single node is gone, which no other one has the name of. -/
theorem single [DecidableEq ι] (hx : nodes j = some x)
    (hname : ∀ i y, nodes i = some y → name y = name x → i = j)
    (h : ∀ i, nodes' i = if i = j then none else nodes i) : Lost name [name x] nodes nodes' where
  left i y := by
    rw [h, List.mem_singleton]
    split
    · rename_i hi
      rw [hi, hx]
      exact iff_of_false (fun hy => by cases hy) fun hy => hy.2 (congrArg name (Option.some.inj hy.1).symm)
    · rename_i hi
      exact (and_iff_left_of_imp fun hy heq => hi (hname i y hy heq)).symm
  live s hs := ⟨j, x, hx, (List.mem_singleton.1 hs).symm⟩
  nodup := List.nodup_singleton _

end Lost

namespace Net

/-- `n'` is what is left of `n` when the places and the transitions of the given names have been removed. -/
structure Stripped (ps ts : List String) (n n' : Net) : Prop where
  places : Lost Place.name ps n.place? n'.place?
  transitions : Lost Transition.name ts n.transition? n'.transition?
  placeCount : n.placeCount = n'.placeCount + ps.length
  transitionCount : n.transitionCount = n'.transitionCount + ts.length

variable {n n' n'' : Net} {p q : PlaceId} {t u : TransitionId}

theorem Stripped.trans {ps ps' ts ts' : List String} (h : n.Stripped ps ts n')
    (k : n'.Stripped ps' ts' n'') : n.Stripped (ps ++ ps') (ts ++ ts') n'' where
  places := h.places.trans k.places
  transitions := h.transitions.trans k.transitions
  placeCount := by
    rw [h.placeCount, k.placeCount, List.length_append]
    omega
  transitionCount := by
    rw [h.transitionCount, k.transitionCount, List.length_append]
    omega

theorem placeName_eq {x : Place} (h : n.place? p = some x) : n.placeName p = x.name := by
  rw [placeName, h]

theorem transitionName_eq {x : Transition} (h : n.transition? t = some x) :
    n.transitionName t = x.name := by
  rw [transitionName, h]

theorem Consistent.eq_of_placeName {x y : Place} (h : n.Consistent) (hp : n.place? p = some x)
    (hq : n.place? q = some y) (hname : x.name = y.name) : p = q := by
  have hfind := h.placeNames.find p x (place?_eq_some_iff.1 hp)
  rw [hname, h.placeNames.find q y (place?_eq_some_iff.1 hq)] at hfind
  exact (Option.some.inj hfind).symm

theorem Consistent.eq_of_transitionName {x y : Transition} (h : n.Consistent)
    (ht : n.transition? t = some x) (hu : n.transition? u = some y) (hname : x.name = y.name) :
    t = u := by
  have hfind := h.transitionNames.find t x (transition?_eq_some_iff.1 ht)
  rw [hname, h.transitionNames.find u y (transition?_eq_some_iff.1 hu)] at hfind
  exact (Option.some.inj hfind).symm

/-- The place is gone with its name. -/
theorem Consistent.lost_place (h : n.Consistent) (hp : n.hasPlace p)
    (hgone : ∀ q, n'.place? q = if q = p then none else n.place? q) :
    Lost Place.name [n.placeName p] n.place? n'.place? := by
  obtain ⟨x, hx⟩ := hasPlace_iff.1 hp
  rw [placeName_eq hx]
  exact .single hx (fun q y hy hname => h.eq_of_placeName hy hx hname) hgone

/-- The transition is gone with its name. -/
theorem Consistent.lost_transition (h : n.Consistent) (ht : n.hasTransition t)
    (hgone : ∀ u, n'.transition? u = if u = t then none else n.transition? u) :
    Lost Transition.name [n.transitionName t] n.transition? n'.transition? := by
  obtain ⟨x, hx⟩ := hasTransition_iff.1 ht
  rw [transitionName_eq hx]
  exact .single hx (fun u y hy hname => h.eq_of_transitionName hy hx hname) hgone

theorem Fused.stripped (hn : n.Consistent) (h : n.Fused p u n') :
    n.Stripped [n.placeName p] [n.transitionName u] n' where
  places := hn.lost_place (hn.livePlace _ h.input) h.place?
  transitions := hn.lost_transition (hn.liveTransition _ h.input) h.transition?
  placeCount := h.placeCount.symm
  transitionCount := h.transitionCount.symm

theorem PlaceGone.stripped (hn : n.Consistent) (h : n.PlaceGone p n') :
    n.Stripped [n.placeName p] [] n' where
  places := hn.lost_place (h.hasPlace hn) h.place?
  transitions := by
    rw [funext h.transition?]
    exact .refl _ _
  placeCount := h.placeCount.symm
  transitionCount := h.transitionCount.symm

theorem TransitionGone.stripped (hn : n.Consistent) (h : n.TransitionGone t n')
    (ht : n.hasTransition t) : n.Stripped [] [n.transitionName t] n' where
  places := by
    rw [funext h.place?]
    exact .refl _ _
  transitions := hn.lost_transition ht h.transition?
  placeCount := h.placeCount.symm
  transitionCount := h.transitionCount.symm

theorem SameNodes.stripped (h : n.SameNodes n') : n.Stripped [] [] n' where
  places := by
    rw [funext h.place?]
    exact .refl _ _
  transitions := by
    rw [funext h.transition?]
    exact .refl _ _
  placeCount := h.placeCount.symm
  transitionCount := h.transitionCount.symm

end Net

/-! ## Steps -/

namespace AcceptingNet

variable {a a' : AcceptingNet} {step : ReductionStep}

/-- Twins are live until they are dropped, so that they keep the names that are reported. -/
theorem Dropped.stripped_places {k : PlaceId} {l : List PlaceId} (hn : a.net.Consistent)
    (h : Dropped (TwinPlaceGone k) l a a') :
    (∀ d ∈ l, a.net.hasPlace d) ∧ a.net.Stripped (l.map a.net.placeName) [] a'.net := by
  induction h with
  | nil a => exact ⟨fun _ hd => absurd hd List.not_mem_nil, (Net.SameNodes.refl a.net).stripped⟩
  | @cons d l a a₁ a' hd _ ih =>
    have hfirst := hd.gone.stripped hn
    obtain ⟨hlive, hrest⟩ := ih hd.gone.consistent
    -- the names that are reported are those from before the first twin went
    have hnames : l.map a₁.net.placeName = l.map a.net.placeName :=
      List.map_congr_left fun e he => by
        obtain ⟨x, hx⟩ := Net.hasPlace_iff.1 (hlive e he)
        rw [Net.placeName_eq hx, Net.placeName_eq ((hfirst.places.left e x).1 hx).1]
    rw [hnames] at hrest
    refine ⟨fun e he => ?_, hfirst.trans hrest⟩
    rcases List.mem_cons.1 he with rfl | he
    · exact hd.gone.hasPlace hn
    · exact (hd.gone.hasPlace_iff.1 (hlive e he)).1

theorem Dropped.stripped_transitions {k : TransitionId} {l : List TransitionId}
    (hn : a.net.Consistent) (h : Dropped (TwinTransitionGone k) l a a') :
    (∀ d ∈ l, a.net.hasTransition d) ∧ a.net.Stripped [] (l.map a.net.transitionName) a'.net := by
  induction h with
  | nil a => exact ⟨fun _ hd => absurd hd List.not_mem_nil, (Net.SameNodes.refl a.net).stripped⟩
  | @cons d l a a₁ a' hd _ ih =>
    have hdead := (Net.isSilent_iff.1 hd.silent).1
    have hfirst := hd.gone.stripped hn hdead
    obtain ⟨hlive, hrest⟩ := ih hd.gone.consistent
    have hnames : l.map a₁.net.transitionName = l.map a.net.transitionName :=
      List.map_congr_left fun e he => by
        obtain ⟨x, hx⟩ := Net.hasTransition_iff.1 (hlive e he)
        rw [Net.transitionName_eq hx, Net.transitionName_eq ((hfirst.transitions.left e x).1 hx).1]
    rw [hnames] at hrest
    refine ⟨fun e he => ?_, hfirst.trans hrest⟩
    rcases List.mem_cons.1 he with rfl | he
    · exact hdead
    · exact (hd.gone.hasTransition_iff.1 (hlive e he)).1

/-- A step removes the nodes that it reports. -/
theorem Rewritten.stripped (hn : a.net.Consistent) (h : a.Rewritten step a') :
    a.net.Stripped step.removedPlaces step.removedTransitions a'.net := by
  cases h with
  | seriesTransitions _ h => exact h.stripped hn
  | seriesPlaces _ h _ => exact h.stripped hn
  | silentStep _ h => exact h.stripped hn
  | parallelTransitions _ h => exact (h.stripped_transitions hn).2
  | parallelPlaces _ h => exact (h.stripped_places hn).2
  | selfLoopTransition hm h =>
    have hsilent := ((selfLoopTransitionAt?_eq_some_iff hn.mirrored).1 hm).silent
    exact h.stripped hn (Net.isSilent_iff.1 hsilent).1
  | selfLoopPlace _ h => exact h.stripped hn
  | reset _ _ h => exact h.nodes.stripped

end AcceptingNet

namespace Reduction

variable {s s' : Reduction}

/-- Steps in a row remove what they report. -/
theorem Rewrites.stripped (hs : s.net.Consistent) (h : Rewrites s s') :
    ∃ l, s'.steps = s.steps ++ l ∧ s.net.Stripped (l.flatMap ReductionStep.removedPlaces)
      (l.flatMap ReductionStep.removedTransitions) s'.net := by
  refine (h.induct (I := fun s' => ∃ l, s'.steps = s.steps ++ l ∧
    s.net.Stripped (l.flatMap ReductionStep.removedPlaces)
      (l.flatMap ReductionStep.removedTransitions) s'.net) hs
    ⟨[], (List.append_nil _).symm, (Net.SameNodes.refl _).stripped⟩ ?_).2
  rintro s₁ s₂ hs₁ ⟨l, hl, hstripped⟩ ⟨step, hstep, hsteps⟩
  refine ⟨l ++ [step], by rw [hsteps, hl, List.append_assoc], ?_⟩
  rw [List.flatMap_append, List.flatMap_append, List.flatMap_singleton, List.flatMap_singleton]
  exact hstripped.trans (hstep.stripped hs₁)

end Reduction

end ProcessNet
