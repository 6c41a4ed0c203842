/-
What a match says of the arcs: each rule acts where its nodes can be agglomerated or are redundant.
-/
import ProcessNet.Proofs.Reduction.Agglomeration
import ProcessNet.Proofs.Reduction.Redundant
import ProcessNet.Proofs.Reduction.Site

namespace ProcessNet

namespace Marking

theorem tokens_of_not_contains {m : Marking} {p : PlaceId} (h : m.contains p = false) :
    m.tokens p = 0 := by
  unfold contains at h
  unfold tokens
  cases hp : m.entries.lookup p with
  | none => rfl
  | some k => rw [hp] at h; cases h

end Marking

namespace AcceptingNet

open Identifier

variable {a : AcceptingNet}

theorem tokens_of_not_isMarked {p : PlaceId} (h : a.isMarked p = false) :
    a.initial.tokens p = 0 ∧ a.final.tokens p = 0 := by
  obtain ⟨hi, hf⟩ := Bool.or_eq_false_iff.1 h
  exact ⟨Marking.tokens_of_not_contains hi, Marking.tokens_of_not_contains hf⟩

/-! ## Series -/

theorem SeriesTransitionsSite.agglomerable {p : PlaceId} {t u : TransitionId}
    (h : a.SeriesTransitionsSite p t u) : a.net.Agglomerable p u where
  silent := h.silent
  input := (h.leaving u .input (by decide)).2 ⟨rfl, rfl⟩
  sole q k hk hq := (h.sole q k hk).1 hq
  consumer v hv := ((h.leaving v .input (by decide)).1 hv).1
  noLoop ho := h.ne ((h.producer u).1 ho).symm
  apart v q hv hq hvq := h.apart q ((h.producer v).1 hv ▸ hvq) hq
  guards v q hq :=
    ⟨iff_of_false (h.unguarded q v _ hq (.inl rfl))
        (fun hr => nomatch ((h.leaving v .reset (by decide)).1 hr).2),
      iff_of_false (h.unguarded q v _ hq (.inr rfl))
        (fun hi => nomatch ((h.leaving v .inhibitor (by decide)).1 hi).2)⟩

theorem seriesTransitionsAt?_eq_some (h : a.net.incidence.Mirrored) {p : PlaceId}
    {m : SeriesTransitions} (hm : a.seriesTransitionsAt? p = some m) :
    a.net.hasPlace p ∧ a.isMarked p = false ∧ a.net.Agglomerable p m.second ∧
      ∀ t, Arc.output t p ∈ a.net.arcs ↔ t = m.first := by
  have hsite := (seriesTransitionsAt?_eq_some_iff h).1 hm
  exact ⟨hsite.live, hsite.unmarked, hsite.agglomerable, hsite.producer⟩

theorem SeriesPlacesSite.agglomerable {t : TransitionId} {p q : PlaceId}
    (h : a.SeriesPlacesSite t p q) : a.net.Agglomerable p t where
  silent := h.silent
  input := (h.consumer t).2 rfl
  sole r k hk hr := (h.input r k hk).1 hr
  consumer v hv := (h.consumer v).1 hv
  noLoop ho := h.ne ((h.output p).1 ho)
  apart v r hv hr hvr := h.apart v hv ((h.output r).1 hr ▸ hvr)
  guards v r hr := by
    cases (h.output r).1 hr
    exact ⟨(h.guards v _ (.inl rfl)).symm, (h.guards v _ (.inr rfl)).symm⟩

theorem seriesPlacesAt?_eq_some (h : a.net.incidence.Mirrored) {t : TransitionId}
    {m : SeriesPlaces} (hm : a.seriesPlacesAt? t = some m) :
    a.final.tokens m.first = 0 ∧ a.net.Agglomerable m.first t ∧
      ∀ q, Arc.output t q ∈ a.net.arcs ↔ q = m.second := by
  have hsite := (seriesPlacesAt?_eq_some_iff h).1 hm
  exact ⟨Marking.tokens_of_not_contains hsite.notFinal, hsite.agglomerable, hsite.output⟩

/-! ## Self-loops -/

theorem selfLoopTransitionAt?_eq_some (h : a.net.incidence.Mirrored) {t : TransitionId}
    {p : PlaceId} (hm : a.selfLoopTransitionAt? t = some p) :
    a.net.isSilent t ∧
      (∀ q k, k ≠ .output → (Arc.mk q t k ∈ a.net.arcs ↔ q = p ∧ k = .input)) ∧
      ∀ q, Arc.output t q ∈ a.net.arcs ↔ q = p := by
  have hsite := (selfLoopTransitionAt?_eq_some_iff h).1 hm
  exact ⟨hsite.silent, hsite.input, hsite.output⟩

theorem refilled_of_isSelfLoopPlace (h : a.net.incidence.Mirrored) {p : PlaceId}
    (hm : a.isSelfLoopPlace p) :
    a.net.hasPlace p ∧ 0 < a.initial.tokens p ∧ a.final.tokens p = 0 ∧
      (∀ t, Arc.inhibitor p t ∉ a.net.arcs) ∧
      ∀ t k, k ≠ .output → Arc.mk p t k ∈ a.net.arcs → Arc.output t p ∈ a.net.arcs := by
  have hsite := (isSelfLoopPlace_iff h).1 hm
  exact ⟨hsite.live, hsite.marked, Marking.tokens_of_not_contains hsite.notFinal,
    hsite.refilled.free, hsite.refilled.restored⟩

/-! ## Silent steps -/

theorem SilentStepSite.agglomerable {t : TransitionId} {s : PlaceId} (h : a.SilentStepSite t s) :
    a.net.Agglomerable s t where
  silent := h.silent
  input := (h.consumer t).2 rfl
  sole q k hk hq := (h.input q k hk).1 hq
  consumer v hv := (h.consumer v).1 hv
  noLoop := h.noLoop
  apart v q hv hq := h.apart v q hv hq
  guards v q hq := ⟨h.guards q hq v _ (.inl rfl), h.guards q hq v _ (.inr rfl)⟩

theorem silentStepAt?_eq_some (h : a.net.incidence.Mirrored) {t : TransitionId} {m : SilentStep}
    (hm : a.silentStepAt? t = some m) :
    a.isMarked m.place = false ∧ a.net.Agglomerable m.place t ∧
      m.producers = a.net.producers m.place ∧ m.targets = a.net.postset t := by
  obtain ⟨hsite, hproducers, htargets⟩ := (silentStepAt?_eq_some_iff h).1 hm
  exact ⟨hsite.unmarked, hsite.agglomerable, hproducers, htargets⟩

/-! ## Reset arcs -/

theorem mem_needlessResets (h : a.net.incidence.Mirrored) {t : TransitionId} {p : PlaceId} :
    p ∈ a.needlessResets t ↔ Arc.reset p t ∈ a.net.arcs ∧ Arc.inhibitor p t ∈ a.net.arcs := by
  rw [needlessResets, List.mem_filter, List.contains_iff_mem]
  exact and_congr (Net.mem_placesAt h) (Net.mem_placesAt h)

theorem nodup_needlessResets (t : TransitionId) : (a.needlessResets t).Nodup := by
  have hresets : (a.net.resetPlaces t).Nodup := by
    refine (ascending_ascending _).imp ?_
    rintro p _ hlt rfl
    exact Nat.lt_irrefl _ hlt
  exact hresets.filter _

/-! ## Parallels -/

/-- A group of `duplicates` lists all elements that have the key of the kept one. -/
theorem mem_duplicates {ι κ : Type} [DecidableEq ι] [DecidableEq κ] {key : ι → κ} {l : List ι}
    {m : Duplicates ι} (hm : m ∈ duplicates key l) :
    m.kept :: m.removed = l.filter (key · = key m.kept) ∧ m.removed ≠ [] := by
  obtain ⟨i, _, hi⟩ := List.mem_filterMap.1 hm
  unfold groupLedBy? at hi
  split at hi
  · rename_i kept removed hfilter
    split at hi
    · rename_i hcond
      cases hi
      obtain ⟨rfl, hne⟩ := hcond
      exact ⟨hfilter.symm, hne⟩
    · cases hi
  · cases hi

/-- An element of a group of `duplicates` and the kept one are in the list and have the same key. -/
theorem key_of_mem_duplicates {ι κ : Type} [DecidableEq ι] [DecidableEq κ] {key : ι → κ}
    {l : List ι} {m : Duplicates ι} (hm : m ∈ duplicates key l) {i : ι}
    (hi : i ∈ m.kept :: m.removed) : i ∈ l ∧ key i = key m.kept := by
  rw [(mem_duplicates hm).1] at hi
  exact ⟨(List.mem_filter.1 hi).1, of_decide_eq_true (List.mem_filter.1 hi).2⟩

/-- No element is in two groups of `duplicates`. -/
theorem pairwise_duplicates {ι κ : Type} [DecidableEq ι] [DecidableEq κ] {key : ι → κ}
    {l : List ι} (hl : l.Nodup) :
    (duplicates key l).Pairwise fun m m' => ∀ i ∈ m.removed, i ∉ m'.kept :: m'.removed := by
  have hleads : ∀ i m, groupLedBy? key l i = some m → m.kept = i := by
    intro i m hi
    unfold groupLedBy? at hi
    split at hi
    · split at hi
      · rename_i hcond
        cases hi
        exact hcond.1
      · cases hi
    · cases hi
  refine List.pairwise_filterMap.2 (hl.imp_of_mem fun {i j} hi hj hne m hm m' hm' x hx hx' => hne ?_)
  have hgroup := mem_duplicates (List.mem_filterMap.2 ⟨i, hi, hm⟩)
  have hgroup' := mem_duplicates (List.mem_filterMap.2 ⟨j, hj, hm'⟩)
  have hkey := (key_of_mem_duplicates (List.mem_filterMap.2 ⟨i, hi, hm⟩)
    (List.mem_cons_of_mem _ hx)).2
  have hkey' := (key_of_mem_duplicates (List.mem_filterMap.2 ⟨j, hj, hm'⟩) hx').2
  -- a common element gives both groups one key, so they are one list
  have hlist := hgroup.1
  rw [← hkey, hkey', ← hgroup'.1, List.cons.injEq] at hlist
  rw [← hleads i m hm, ← hleads j m' hm', hlist.1]

theorem nodup_of_mem_duplicates {ι κ : Type} [DecidableEq ι] [DecidableEq κ] {key : ι → κ}
    {l : List ι} (hl : l.Nodup) {m : Duplicates ι} (hm : m ∈ duplicates key l) :
    (m.kept :: m.removed).Nodup := by
  rw [(mem_duplicates hm).1]
  exact hl.filter _

theorem sameArcs_of_transitionShape (h : a.net.incidence.Mirrored) {t u : TransitionId}
    (hs : a.transitionShape t = a.transitionShape u) : a.net.SameArcs t a.net u := by
  simp only [transitionShape, List.cons.injEq, and_true] at hs
  obtain ⟨hin, hout, hreset, hno⟩ := hs
  intro p k
  rw [← Net.mem_placesAt h, ← Net.mem_placesAt h]
  cases k with
  | input => exact iff_of_eq (congrArg _ hin)
  | output => exact iff_of_eq (congrArg _ hout)
  | reset => exact iff_of_eq (congrArg _ hreset)
  | inhibitor => exact iff_of_eq (congrArg _ hno)

theorem sameArcs_of_placeShape (h : a.net.incidence.Mirrored) {p q : PlaceId}
    (hs : a.placeShape p = a.placeShape q) :
    (∀ t k, Arc.mk p t k ∈ a.net.arcs ↔ Arc.mk q t k ∈ a.net.arcs) ∧
      a.initial.tokens p = a.initial.tokens q ∧ a.final.tokens p = a.final.tokens q := by
  simp only [placeShape, Prod.mk.injEq, List.cons.injEq, and_true] at hs
  obtain ⟨⟨hproducers, hconsumers, hresetters, hinhibited⟩, hinitial, hfinal⟩ := hs
  refine ⟨fun t k => ?_, hinitial, hfinal⟩
  rw [← Net.mem_transitionsAt h, ← Net.mem_transitionsAt h]
  cases k with
  | input => exact iff_of_eq (congrArg _ hconsumers)
  | output => exact iff_of_eq (congrArg _ hproducers)
  | reset => exact iff_of_eq (congrArg _ hresetters)
  | inhibitor => exact iff_of_eq (congrArg _ hinhibited)

end AcceptingNet

end ProcessNet
