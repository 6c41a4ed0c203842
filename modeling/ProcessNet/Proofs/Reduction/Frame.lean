/-
What a reduction leaves alone. Nodes only go, and only silent transitions do; what stays keeps its
data, its final tokens and its arcs, but for reset arcs beside an inhibitor arc, and only output arcs
are ever added. Tokens never lie on places that are gone. This is told as a relation between the net at
the start and a later one: every step is in it, also the fusion that fails half way because a count is
too large, and it composes.
-/
import ProcessNet.Proofs.Reduction.Consistency

namespace ProcessNet

/-! ## Nets -/

namespace Net

/-- `n'` is what edits have left of `n`. -/
structure Shrunk (n n' : Net) : Prop where
  /-- A place is as it was, or gone. -/
  place : ∀ p, n'.place? p = n.place? p ∨ n'.place? p = none
  /-- A transition is as it was, or it is gone and was silent. -/
  transition : ∀ t, n'.transition? t = n.transition? t ∨ n'.transition? t = none ∧ n.isSilent t
  /-- Only output arcs are new. -/
  new : ∀ b ∈ n'.arcs, b ∈ n.arcs ∨ b.kind = .output
  /-- An arc goes with one of its nodes, or it is a reset arc beside an inhibitor arc that stays. -/
  old : ∀ b ∈ n.arcs, n'.hasPlace b.place → n'.hasTransition b.transition →
    b ∈ n'.arcs ∨ b.kind = .reset ∧ Arc.inhibitor b.place b.transition ∈ n'.arcs

variable {n n' n'' : Net} {p : PlaceId} {t u : TransitionId}

namespace Shrunk

theorem refl (n : Net) : Shrunk n n :=
  ⟨fun _ => .inl rfl, fun _ => .inl rfl, fun _ hb => .inl hb, fun _ hb _ _ => .inl hb⟩

theorem hasPlace (h : Shrunk n n') (hp : n'.hasPlace p) : n.hasPlace p := by
  unfold Net.hasPlace at hp ⊢
  rcases h.place p with hkept | hgone
  · rwa [hkept] at hp
  · rw [hgone] at hp
    cases hp

theorem hasTransition (h : Shrunk n n') (ht : n'.hasTransition t) : n.hasTransition t := by
  unfold Net.hasTransition at ht ⊢
  rcases h.transition t with hkept | ⟨hgone, _⟩
  · rwa [hkept] at ht
  · rw [hgone] at ht
    cases ht

theorem trans (h : Shrunk n n') (k : Shrunk n' n'') : Shrunk n n'' where
  place p := by
    rcases k.place p with hkept | hgone
    · rw [hkept]
      exact h.place p
    · exact .inr hgone
  transition t := by
    rcases h.transition t with hkept | ⟨hgone, hsilent⟩
    · have hsame : n'.isSilent t = n.isSilent t := by rw [isSilent, hkept, isSilent]
      rw [← hkept, ← hsame]
      exact k.transition t
    · refine .inr ⟨?_, hsilent⟩
      rcases k.transition t with hkept | ⟨hgone', _⟩
      · rw [hkept, hgone]
      · exact hgone'
  new b hb := by
    rcases k.new b hb with hb | hkind
    · exact h.new b hb
    · exact .inr hkind
  old b hb hp ht := by
    rcases h.old b hb (k.hasPlace hp) (k.hasTransition ht) with hb | ⟨hkind, hin⟩
    · exact k.old b hb hp ht
    -- the inhibitor arc that made the reset arc needless stays, for it is no reset arc itself
    · rcases k.old _ hin hp ht with hin | ⟨hno, _⟩
      · exact .inr ⟨hkind, hin⟩
      · cases hno

end Shrunk

theorem Fused.shrunk (h : n.Fused p u n') : n.Shrunk n' where
  place q := by
    rw [h.place?]
    split
    · exact .inr rfl
    · exact .inl rfl
  transition t := by
    rw [h.transition?]
    split
    · rename_i ht
      exact .inr ⟨rfl, ht ▸ h.silent⟩
    · exact .inl rfl
  new b hb := ((h.mem_arcs b).1 hb).imp (·.1) (·.1)
  old b hb hp ht := .inl ((h.mem_arcs b).2
    (.inl ⟨hb, (h.hasPlace_iff.1 hp).1, (h.hasTransition_iff.1 ht).1⟩))

theorem PlaceGone.shrunk (h : n.PlaceGone p n') : n.Shrunk n' where
  place q := by
    rw [h.place?]
    split
    · exact .inr rfl
    · exact .inl rfl
  transition t := .inl (h.transition? t)
  new b hb := .inl ((h.mem_arcs b).1 hb).1
  old b hb hp _ := .inl ((h.mem_arcs b).2 ⟨hb, (h.hasPlace_iff.1 hp).2⟩)

theorem TransitionGone.shrunk (h : n.TransitionGone t n') (hsilent : n.isSilent t) :
    n.Shrunk n' where
  place p := .inl (h.place? p)
  transition u := by
    rw [h.transition?]
    split
    · rename_i hu
      exact .inr ⟨rfl, hu ▸ hsilent⟩
    · exact .inl rfl
  new b hb := .inl ((h.mem_arcs b).1 hb).1
  old b hb _ ht := .inl ((h.mem_arcs b).2 ⟨hb, (h.hasTransition_iff.1 ht).2⟩)

theorem ResetGone.shrunk (h : n.ResetGone p t n') (hin : Arc.inhibitor p t ∈ n.arcs) :
    n.Shrunk n' where
  place q := .inl (h.nodes.place? q)
  transition u := .inl (h.nodes.transition? u)
  new b hb := .inl ((h.mem_arcs b).1 hb).1
  old b hb _ _ := by
    by_cases he : b = .reset p t
    · subst he
      exact .inr ⟨rfl, (h.mem_arcs _).2 ⟨hin, fun he => nomatch congrArg Arc.kind he⟩⟩
    · exact .inl ((h.mem_arcs b).2 ⟨hb, he⟩)

end Net

/-! ## Markings -/

namespace Marking

variable {m m' : Marking} {p q r : PlaceId} {k : Nat}

theorem mem_places_take (h : q ∈ (m.take p).2.places) : q ≠ p ∧ q ∈ m.places := by
  obtain ⟨e, he, rfl⟩ := List.mem_map.1 h
  obtain ⟨hmem, hne⟩ := List.mem_filter.1 he
  exact ⟨of_decide_eq_true hne, List.mem_map_of_mem hmem⟩

theorem mem_places_add (hadd : m.add p k = .ok m') (h : q ∈ m'.places) : q = p ∨ q ∈ m.places := by
  obtain ⟨_, rfl⟩ := add_eq_ok_iff.1 hadd
  obtain ⟨e, he, rfl⟩ := List.mem_map.1 h
  unfold set at he
  split at he
  · exact .inr (List.mem_map_of_mem (List.mem_filter.1 he).1)
  · rcases mem_insertEntry he with rfl | he
    · exact .inl rfl
    · exact .inr (List.mem_map_of_mem he)

/-- Moved tokens lie where they were moved to, and no others have come. -/
theorem mem_places_moveAll (hne : q ≠ p) (hmove : m.moveAll p q = .ok m') (h : r ∈ m'.places) :
    r ≠ p ∧ (r = q ∨ r ∈ m.places) := by
  unfold moveAll at hmove
  split at hmove
  · rcases mem_places_add hmove h with rfl | h
    · exact ⟨hne, .inl rfl⟩
    · exact ⟨(mem_places_take h).1, .inr (mem_places_take h).2⟩
  · cases hmove
    exact ⟨(mem_places_take h).1, .inr (mem_places_take h).2⟩

theorem notMem_places_of_not_contains (h : m.contains p = false) : p ∉ m.places := by
  intro hp
  obtain ⟨e, he, rfl⟩ := List.mem_map.1 hp
  have hnone : m.entries.lookup e.1 = none :=
    Option.not_isSome_iff_eq_none.1 fun hsome => Bool.false_ne_true (h.symm.trans hsome)
  exact bne_iff_ne.1 (List.lookup_eq_none_iff.1 hnone e he) rfl

end Marking

namespace AcceptingNet

variable {a a' a'' : AcceptingNet}

/-- Both markings put tokens on live places only. -/
structure Supported (a : AcceptingNet) : Prop where
  initial : ∀ p ∈ a.initial.places, a.net.hasPlace p
  final : ∀ p ∈ a.final.places, a.net.hasPlace p

/-- `a'` is what a reduction may leave of `a`. -/
structure Frame (a a' : AcceptingNet) : Prop where
  net : a.net.Shrunk a'.net
  supported : a'.Supported
  final : ∀ p, a'.net.hasPlace p → a'.final.entries.lookup p = a.final.entries.lookup p

theorem Frame.refl (h : a.Supported) : Frame a a := ⟨.refl _, h, fun _ _ => rfl⟩

theorem Frame.trans (h : Frame a a') (k : Frame a' a'') : Frame a a'' :=
  ⟨h.net.trans k.net, k.supported,
    fun p hp => (k.final p hp).trans (h.final p (k.net.hasPlace hp))⟩

/-! ## Steps -/

/-- A fusion takes no tokens away as long as none lie on the place that goes. -/
theorem frame_of_fused {p : PlaceId} {u : TransitionId} {n : Net} {initial : Marking}
    (ha : a.Supported) (h : a.net.Fused p u n)
    (hinitial : ∀ q ∈ initial.places, q ≠ p ∧ a.net.hasPlace q) (hfinal : p ∉ a.final.places) :
    Frame a ⟨n, initial, a.final⟩ where
  net := h.shrunk
  supported := ⟨fun q hq => h.hasPlace_iff.2 (hinitial q hq),
    fun q hq => h.hasPlace_iff.2 ⟨fun he => hfinal (he ▸ hq), ha.final q hq⟩⟩
  final _ _ := rfl

theorem notMem_places_of_not_isMarked {p : PlaceId} (h : a.isMarked p = false) :
    p ∉ a.initial.places ∧ p ∉ a.final.places := by
  obtain ⟨hinitial, hfinal⟩ := Bool.or_eq_false_iff.1 h
  exact ⟨Marking.notMem_places_of_not_contains hinitial,
    Marking.notMem_places_of_not_contains hfinal⟩

theorem frame_of_fused_unmarked {p : PlaceId} {u : TransitionId} {n : Net} (ha : a.Supported)
    (h : a.net.Fused p u n) (hp : a.isMarked p = false) : Frame a ⟨n, a.initial, a.final⟩ := by
  obtain ⟨hinitial, hfinal⟩ := notMem_places_of_not_isMarked hp
  exact frame_of_fused ha h (fun q hq => ⟨fun he => hinitial (he ▸ hq), ha.initial q hq⟩) hfinal

theorem frame_of_transitionGone {t : TransitionId} {n : Net} (ha : a.Supported)
    (h : a.net.TransitionGone t n) (hsilent : a.net.isSilent t) :
    Frame a ⟨n, a.initial, a.final⟩ := by
  have hlive : ∀ p, n.hasPlace p = a.net.hasPlace p := fun p => by
    rw [Net.hasPlace, h.place?, Net.hasPlace]
  exact ⟨h.shrunk hsilent, ⟨fun p hp => (hlive p).trans (ha.initial p hp),
    fun p hp => (hlive p).trans (ha.final p hp)⟩, fun _ _ => rfl⟩

/-- A place goes with its tokens. -/
theorem frame_of_placeGone {p : PlaceId} {n : Net} {final : Marking} (ha : a.Supported)
    (h : a.net.PlaceGone p n) (hfinal : ∀ q ∈ final.places, q ≠ p ∧ q ∈ a.final.places)
    (hlookup : ∀ q, q ≠ p → final.entries.lookup q = a.final.entries.lookup q) :
    Frame a ⟨n, (a.initial.take p).2, final⟩ where
  net := h.shrunk
  supported := by
    refine ⟨fun q hq => h.hasPlace_iff.2 ?_, fun q hq => h.hasPlace_iff.2 ?_⟩
    · obtain ⟨hne, hq⟩ := Marking.mem_places_take hq
      exact ⟨ha.initial q hq, hne⟩
    · obtain ⟨hne, hq⟩ := hfinal q hq
      exact ⟨ha.final q hq, hne⟩
  final q hq := hlookup q (h.hasPlace_iff.1 hq).2

theorem TwinTransitionGone.frame {k d : TransitionId} (h : TwinTransitionGone k d a a')
    (ha : a.Supported) : Frame a a' := by
  obtain ⟨n, initial, final⟩ := a'
  obtain ⟨_, _, hsilent, _, hgone, rfl, rfl⟩ := h
  exact frame_of_transitionGone ha hgone hsilent

theorem TwinPlaceGone.frame {k d : PlaceId} (h : TwinPlaceGone k d a a') (ha : a.Supported) :
    Frame a a' := by
  obtain ⟨n, initial, final⟩ := a'
  obtain ⟨_, _, _, _, hgone, rfl, rfl⟩ := h
  refine frame_of_placeGone ha hgone (fun q hq => Marking.mem_places_take hq) fun q hne => ?_
  exact Marking.lookup_eraseEntry.trans (if_neg hne)

theorem Dropped.frame {ι : Type} {Drop : ι → AcceptingNet → AcceptingNet → Prop}
    (hdrop : ∀ d a a', Drop d a a' → a.Supported → Frame a a') {l : List ι}
    (h : Dropped Drop l a a') (ha : a.Supported) : Frame a a' := by
  induction h with
  | nil => exact .refl ha
  | cons hd _ ih =>
    have hfirst := hdrop _ _ _ hd ha
    exact hfirst.trans (ih hfirst.supported)

/-- The place that takes over is live, so it may take the tokens. -/
theorem frame_of_seriesPlaces {t : TransitionId} {m : SeriesPlaces} {n : Net} {initial : Marking}
    (hnet : a.net.Consistent) (ha : a.Supported) (hm : a.seriesPlacesAt? t = some m)
    (h : a.net.Fused m.first t n)
    (hinitial : ∀ q ∈ initial.places, q ≠ m.first ∧ (q = m.second ∨ q ∈ a.initial.places)) :
    Frame a ⟨n, initial, a.final⟩ := by
  have hsite := (seriesPlacesAt?_eq_some_iff hnet.mirrored).1 hm
  have hsecond : a.net.hasPlace m.second := hnet.livePlace _ ((hsite.output m.second).2 rfl)
  refine frame_of_fused ha h (fun q hq => ?_) (Marking.notMem_places_of_not_contains hsite.notFinal)
  obtain ⟨hne, rfl | hq⟩ := hinitial q hq
  · exact ⟨hne, hsecond⟩
  · exact ⟨hne, ha.initial q hq⟩

theorem Rewritten.frame {step : ReductionStep} (hnet : a.net.Consistent) (ha : a.Supported)
    (h : a.Rewritten step a') : Frame a a' := by
  have hmirrored := hnet.mirrored
  cases h with
  | seriesTransitions hm h =>
    exact frame_of_fused_unmarked ha h (seriesTransitionsAt?_eq_some hmirrored hm).2.1
  | seriesPlaces hm h hmove =>
    have hne := ((seriesPlacesAt?_eq_some_iff hmirrored).1 hm).ne.symm
    exact frame_of_seriesPlaces hnet ha hm h fun q hq => Marking.mem_places_moveAll hne hmove hq
  | parallelTransitions _ h => exact h.frame (fun _ _ _ hd => hd.frame) ha
  | parallelPlaces _ h => exact h.frame (fun _ _ _ hd => hd.frame) ha
  | selfLoopTransition hm h =>
    exact frame_of_transitionGone ha h ((selfLoopTransitionAt?_eq_some_iff hmirrored).1 hm).silent
  | selfLoopPlace hm h =>
    have hfinal := Marking.notMem_places_of_not_contains
      ((isSelfLoopPlace_iff hmirrored).1 hm).notFinal
    exact frame_of_placeGone ha h (fun q hq => ⟨fun he => hfinal (he ▸ hq), hq⟩) fun _ _ => rfl
  | silentStep hm h =>
    exact frame_of_fused_unmarked ha h (silentStepAt?_eq_some hmirrored hm).1
  | @reset _ _ n _ hin h =>
    have hlive : ∀ p, n.hasPlace p = a.net.hasPlace p := h.nodes.hasPlace
    exact ⟨h.shrunk hin, ⟨fun p hp => (hlive p).trans (ha.initial p hp),
      fun p hp => (hlive p).trans (ha.final p hp)⟩, fun _ _ => rfl⟩

/-- A fusion that fails has lost tokens, but has not put them anywhere. -/
theorem Spilled.frame (hnet : a.net.Consistent) (ha : a.Supported) (h : a.Spilled a') :
    Frame a a' := by
  obtain ⟨n, initial, final⟩ := a'
  obtain ⟨t, m, hm, hfused, rfl, rfl⟩ := h
  refine frame_of_seriesPlaces hnet ha hm hfused fun q hq => ?_
  exact (Marking.mem_places_take hq).imp_right .inr

end AcceptingNet

/-! ## Reductions -/

namespace Reduction

open AcceptingNet

variable {checker : Option Checker} {s₀ s : Reduction} {e : ReductionError}

theorem Rewrites.frame (hs₀ : s₀.net.Consistent) (ha : s₀.accepting.Supported)
    (h : Rewrites s₀ s) : Frame s₀.accepting s.accepting := by
  refine (h.induct (I := fun s => Frame s₀.accepting s.accepting) hs₀ (.refl ha) ?_).2
  rintro s s' hs hframe ⟨step, hstep, _⟩
  exact hframe.trans (hstep.frame hs hframe.supported)

theorem Halted.frame (hs₀ : s₀.net.Consistent) (ha : s₀.accepting.Supported)
    (h : Halted checker s₀ e s) : Frame s₀.accepting s.accepting := by
  cases h with
  | overflow h _ _ hspilled =>
    have hframe := h.frame hs₀ ha
    exact hframe.trans (hspilled.frame (h.consistent hs₀) hframe.supported)
  | @objection _ step _ _ _ _ h =>
    have hframe : Frame s₀.accepting (s.record step).accepting := h.frame hs₀ ha
    exact hframe

theorem ends_frame (options : ReductionOptions) (hs₀ : s₀.net.Consistent)
    (ha : s₀.accepting.Supported) :
    Ends (fun _ s => Frame s₀.accepting s.accepting) (fun _ s => Frame s₀.accepting s.accepting)
      (complete options s₀) :=
  (ends_complete options hs₀).imp (fun _ _ hs => hs.2.frame hs₀ ha) fun _ _ he => he.frame hs₀ ha

end Reduction

namespace AcceptingNet

open Reduction

/-- A reduction stays within the frame of its start: whenever the checker is called, which is after
every step, and in the end, however it ends. -/
theorem reduce_keeps_frame (a : AcceptingNet) (options : ReductionOptions)
    (hnet : a.net.checkConsistency = .ok ()) (hnodup : a.net.arcs.Nodup)
    (hmarkings : a.Supported) :
    (∀ rule s, a.ConsultedAt options rule s → Frame a s.accepting) ∧
      Frame a (a.reduce options).accepting := by
  have hstart : ({ accepting := a } : Reduction).net.Consistent :=
    (Net.consistent_iff_checkConsistency hnodup).2 hnet
  refine ⟨fun rule s hs => ?_, ?_⟩
  · have hends := ends_frame { options with checker := some (objectingTo options.checker s.net) }
      hstart hmarkings
    rw [hs] at hends
    exact hends
  have hends := ends_frame options hstart hmarkings
  cases hrun : complete options { accepting := a } with
  | ok report s =>
    rw [hrun] at hends
    rw [reduce_of_complete hrun]
    exact hends
  | error e s =>
    rw [hrun] at hends
    rw [reduce_of_error hrun]
    exact hends

/-- The workshop keeps its frame where the checker stops its reduction, and through five rules otherwise. -/
theorem workshop_keeps_frame : Frame workshop merged ∧ Frame workshop tidied := by
  have hsupported : workshop.Supported := ⟨by decide, by decide⟩
  have hopen := reduce_keeps_frame workshop workshopOptions (by decide +kernel) (by decide) hsupported
  have hchoosy := reduce_keeps_frame workshop { workshopOptions with checker := some choosy }
    (by decide +kernel) (by decide) hsupported
  rw [reduce_workshop] at hopen
  exact ⟨hchoosy.1 .fpt _ consultedAt_merged, hopen.2⟩

end AcceptingNet

end ProcessNet
