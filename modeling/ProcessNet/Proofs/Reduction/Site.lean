/-
Where the rules match, told by the arcs alone. A rule with a test at one anchor matches there just if the
arcs around the anchor are as its site says; so what an edit does to the matches follows from what it
does to the arcs.
-/
import Mathlib.Logic.Basic
import ProcessNet.Proofs.Net.Neighbours

namespace ProcessNet

theorem eq_singleton_iff_of_nodup {α : Type} {l : List α} {x : α} (hl : l.Nodup) :
    l = [x] ↔ ∀ y, y ∈ l ↔ y = x := by
  refine ⟨fun h y => by rw [h, List.mem_singleton], fun h => ?_⟩
  refine List.perm_singleton.1 ((List.perm_ext_iff_of_nodup hl (by simp)).2 ?_)
  exact fun y => (h y).trans List.mem_singleton.symm

namespace Net

open Identifier

variable {n : Net} {p q : PlaceId} {t : TransitionId}

/-- Nothing leads into the transition but an input arc from the place. -/
def SoleInput (n : Net) (p : PlaceId) (t : TransitionId) : Prop :=
  ∀ q k, k ≠ .output → (Arc.mk q t k ∈ n.arcs ↔ q = p ∧ k = .input)

/-- The transition puts tokens into the place and nowhere else. -/
def SoleOutput (n : Net) (t : TransitionId) (q : PlaceId) : Prop :=
  ∀ r, Arc.output t r ∈ n.arcs ↔ r = q

/-- The transition takes tokens from the place and no other one does. -/
def SoleConsumer (n : Net) (p : PlaceId) (t : TransitionId) : Prop :=
  ∀ u, Arc.input p u ∈ n.arcs ↔ u = t

/-- The same transitions empty both places, and the same ones need them empty. -/
def SameGuards (n : Net) (p q : PlaceId) : Prop :=
  ∀ t k, k = .reset ∨ k = .inhibitor → (Arc.mk p t k ∈ n.arcs ↔ Arc.mk q t k ∈ n.arcs)

/-- What takes from the place or empties it puts a token into it, nothing else does, and nothing needs
it empty. -/
structure Refilled (n : Net) (p : PlaceId) : Prop where
  free : ∀ t, Arc.inhibitor p t ∉ n.arcs
  restored : ∀ t k, k ≠ .output → Arc.mk p t k ∈ n.arcs → Arc.output t p ∈ n.arcs
  used : ∀ t, Arc.output t p ∈ n.arcs → Arc.input p t ∈ n.arcs ∨ Arc.reset p t ∈ n.arcs

theorem ascending_transitionsAt (n : Net) (p : PlaceId) (k : ArcKind) :
    Ascending (n.transitionsAt p k) :=
  ascending_ascending _

theorem ascending_placesAt (n : Net) (t : TransitionId) (k : ArcKind) :
    Ascending (n.placesAt t k) :=
  ascending_ascending _

theorem nodup_transitionsAt (n : Net) (p : PlaceId) (k : ArcKind) : (n.transitionsAt p k).Nodup :=
  (ascending_transitionsAt n p k).imp fun {i j} (hlt : index i < index j) (he : i = j) =>
    Nat.lt_irrefl _ (he ▸ hlt)

/-- The arcs that `placeInArcs` lists are all different. -/
theorem nodup_placeInArcs (h : n.incidence.Mirrored) (p : PlaceId) : (n.placeInArcs p).Nodup := by
  refine List.pairwise_map.2 (((h.nodup_placeArcs p).filter _).imp_of_mem fun {e f} he hf hne => ?_)
  have houtput : ∀ g ∈ (n.placeArcs p).filter (fun e => !e.2.isPlaceToTransition), g.2 = .output := by
    intro g hg
    have hk := (List.mem_filter.1 hg).2
    cases hk' : g.2 <;> simp [hk', ArcKind.isPlaceToTransition] at hk
    rfl
  exact fun hfst => hne (Prod.ext hfst ((houtput e he).trans (houtput f hf).symm))

theorem placeInArcs_eq_singleton_iff (h : n.incidence.Mirrored) :
    n.placeInArcs p = [t] ↔ ∀ u, Arc.output u p ∈ n.arcs ↔ u = t := by
  rw [eq_singleton_iff_of_nodup (nodup_placeInArcs h p)]
  exact forall_congr' fun u => iff_congr (mem_placeInArcs h) Iff.rfl

theorem sole_input_iff {k : ArcKind} {P Q : Prop} :
    (k ≠ .output ∧ P ↔ Q ∧ k = .input) ↔ (k ≠ .output → (P ↔ Q ∧ k = .input)) := by
  by_cases hk : k = .output
  · subst hk
    simp
  · simp [hk]

theorem placeOutArcs_eq_singleton_iff (h : n.incidence.Mirrored) :
    n.placeOutArcs p = [(t, .input)] ↔
      ∀ u k, k ≠ .output → (Arc.mk p u k ∈ n.arcs ↔ u = t ∧ k = .input) := by
  have hnodup : (n.placeOutArcs p).Nodup := (h.nodup_placeArcs p).filter _
  rw [eq_singleton_iff_of_nodup hnodup, Prod.forall]
  refine forall₂_congr fun u k => ?_
  rw [mem_placeOutArcs h, Prod.mk.injEq, sole_input_iff]

theorem transitionInArcs_eq_singleton_iff (h : n.incidence.Mirrored) :
    n.transitionInArcs t = [(p, .input)] ↔ n.SoleInput p t := by
  have hnodup : (n.transitionInArcs t).Nodup := (nodup_transitionArcs h t).filter _
  rw [eq_singleton_iff_of_nodup hnodup, Prod.forall]
  refine forall₂_congr fun q k => ?_
  rw [mem_transitionInArcs h, Prod.mk.injEq, sole_input_iff]

theorem transitionOutArcs_eq_singleton_iff (h : n.incidence.Mirrored) :
    n.transitionOutArcs t = [q] ↔ n.SoleOutput t q := by
  have hnodup : (n.transitionOutArcs t).Nodup := nodup_places (nodup_transitionArcs h t) .output
  rw [eq_singleton_iff_of_nodup hnodup]
  exact forall_congr' fun r => iff_congr (mem_outPlaces h) Iff.rfl

theorem consumers_eq_singleton_iff (h : n.incidence.Mirrored) :
    n.consumers p = [t] ↔ n.SoleConsumer p t := by
  rw [consumers, eq_singleton_iff_of_nodup (nodup_transitionsAt n p .input)]
  exact forall_congr' fun u => iff_congr (mem_consumers h) Iff.rfl

/-- Sets of transitions around places are the same if the arcs are. -/
theorem transitionsAt_congr {n' : Net} (h : n.incidence.Mirrored) (h' : n'.incidence.Mirrored)
    {k : ArcKind} (hsame : ∀ t, Arc.mk p t k ∈ n.arcs ↔ Arc.mk q t k ∈ n'.arcs) :
    n.transitionsAt p k = n'.transitionsAt q k :=
  (ascending_transitionsAt n p k).ext (ascending_transitionsAt n' q k) fun t => by
    rw [mem_transitionsAt h, mem_transitionsAt h', hsame]

theorem placesAt_congr {n' : Net} {u : TransitionId} (h : n.incidence.Mirrored)
    (h' : n'.incidence.Mirrored) {k : ArcKind}
    (hsame : ∀ p, Arc.mk p t k ∈ n.arcs ↔ Arc.mk p u k ∈ n'.arcs) :
    n.placesAt t k = n'.placesAt u k :=
  (ascending_placesAt n t k).ext (ascending_placesAt n' u k) fun p => by
    rw [mem_placesAt h, mem_placesAt h', hsame]

/-! ## What the rules ask of neighbours -/

theorem producers_ne_nil_iff (h : n.incidence.Mirrored) :
    n.producers p ≠ [] ↔ ∃ t, Arc.output t p ∈ n.arcs := by
  simp only [ne_eq, List.eq_nil_iff_forall_not_mem, mem_producers h, not_forall, not_not]

theorem postset_ne_nil_iff (h : n.incidence.Mirrored) :
    n.postset t ≠ [] ↔ ∃ q, Arc.output t q ∈ n.arcs := by
  simp only [ne_eq, List.eq_nil_iff_forall_not_mem, mem_postset h, not_forall, not_not]

theorem isEmpty_resetters_iff (h : n.incidence.Mirrored) :
    (n.resetters p).isEmpty ↔ ∀ t, Arc.reset p t ∉ n.arcs := by
  simp only [List.isEmpty_iff, List.eq_nil_iff_forall_not_mem, mem_resetters h]

theorem isEmpty_inhibited_iff (h : n.incidence.Mirrored) :
    (n.inhibited p).isEmpty ↔ ∀ t, Arc.inhibitor p t ∉ n.arcs := by
  simp only [List.isEmpty_iff, List.eq_nil_iff_forall_not_mem, mem_inhibited h]

/-- A transition that takes from a place and has a single arc into it has this arc. -/
theorem length_transitionInArcs_eq_one_iff (h : n.incidence.Mirrored) (ha : Arc.input p t ∈ n.arcs) :
    (n.transitionInArcs t).length = 1 ↔ n.SoleInput p t := by
  rw [← transitionInArcs_eq_singleton_iff h, List.length_eq_one_iff]
  refine ⟨fun ⟨e, he⟩ => ?_, fun he => ⟨_, he⟩⟩
  have hmem := (mem_transitionInArcs h).2 ⟨by decide, ha⟩
  rw [he, List.mem_singleton] at hmem
  rw [he, ← hmem]

theorem all_postset_unguarded_iff (h : n.incidence.Mirrored) :
    (n.postset t).all (fun q => (n.resetters q).isEmpty && (n.inhibited q).isEmpty) ↔
      ∀ q u k, Arc.output t q ∈ n.arcs → k = .reset ∨ k = .inhibitor → Arc.mk q u k ∉ n.arcs := by
  simp only [List.all_eq_true, Bool.and_eq_true, mem_postset h, isEmpty_resetters_iff h,
    isEmpty_inhibited_iff h]
  constructor
  · rintro hall q u k hq (rfl | rfl)
    · exact (hall q hq).1 u
    · exact (hall q hq).2 u
  · exact fun hall q hq => ⟨fun u => hall q u _ hq (.inl rfl), fun u => hall q u _ hq (.inr rfl)⟩

/-- No transition that feeds the place puts tokens where the transition puts them. -/
theorem all_producers_apart_iff (h : n.incidence.Mirrored) :
    ((n.producers p).all fun u => (n.postset t).all fun q => !n.hasArc (.output u q)) ↔
      ∀ u q, Arc.output u p ∈ n.arcs → Arc.output t q ∈ n.arcs → Arc.output u q ∉ n.arcs := by
  have hfree : ∀ a, (!n.hasArc a) = true ↔ a ∉ n.arcs := fun a => by
    rw [Bool.not_eq_true', ← Bool.not_eq_true]
    exact not_congr List.contains_iff_mem
  simp only [List.all_eq_true, hfree, mem_producers h, mem_postset h]
  exact ⟨fun hall u q hu hq => hall u hu q hq, fun hall u hu q hq => hall u q hu hq⟩

end Net

namespace AcceptingNet

open Identifier

variable {a : AcceptingNet} {p q : PlaceId} {t u : TransitionId}

theorem soleInput?_eq_some_iff (h : a.net.incidence.Mirrored) :
    a.soleInput? t = some p ↔ a.net.SoleInput p t := by
  rw [← Net.transitionInArcs_eq_singleton_iff h]
  unfold soleInput?
  split
  · rename_i r hlist
    rw [hlist, Option.some.injEq, List.singleton_inj, Prod.mk.injEq, and_iff_left rfl]
  · rename_i hlist
    exact iff_of_false (fun he => nomatch he) fun he => hlist p he

theorem soleOutput?_eq_some_iff (h : a.net.incidence.Mirrored) :
    a.soleOutput? t = some q ↔ a.net.SoleOutput t q := by
  rw [← Net.transitionOutArcs_eq_singleton_iff h]
  unfold soleOutput?
  split
  · rename_i r hlist
    rw [hlist, Option.some.injEq, List.singleton_inj]
  · rename_i hlist
    exact iff_of_false (fun he => nomatch he) fun he => hlist q he

theorem disjoint_producers_iff (h : a.net.incidence.Mirrored) :
    disjoint (a.net.producers p) (a.net.producers q) ↔
      ∀ u, Arc.output u p ∈ a.net.arcs → Arc.output u q ∉ a.net.arcs := by
  simp only [disjoint_iff, Net.mem_producers h]

theorem disjoint_postset_iff (h : a.net.incidence.Mirrored) :
    disjoint (a.net.postset t) (a.net.postset u) ↔
      ∀ q, Arc.output t q ∈ a.net.arcs → Arc.output u q ∉ a.net.arcs := by
  simp only [disjoint_iff, Net.mem_postset h]

theorem sameGuards_eq_true_iff (h : a.net.incidence.Mirrored) :
    a.sameGuards p q ↔ a.net.SameGuards p q := by
  rw [sameGuards, Bool.and_eq_true, decide_eq_true_eq, decide_eq_true_eq]
  constructor
  · rintro ⟨hreset, hinhibitor⟩ t k (rfl | rfl)
    · rw [← Net.mem_transitionsAt h, ← Net.mem_transitionsAt h]
      exact iff_of_eq (congrArg _ hreset)
    · rw [← Net.mem_transitionsAt h, ← Net.mem_transitionsAt h]
      exact iff_of_eq (congrArg _ hinhibitor)
  · exact fun hsame => ⟨Net.transitionsAt_congr h h fun t => hsame t _ (.inl rfl),
      Net.transitionsAt_congr h h fun t => hsame t _ (.inr rfl)⟩

/-! ## Series -/

/-- Tokens go from `t` through the unmarked place `p` to the silent transition `u` and no other way. -/
structure SeriesTransitionsSite (a : AcceptingNet) (p : PlaceId) (t u : TransitionId) : Prop where
  live : a.net.hasPlace p
  unmarked : a.isMarked p = false
  producer : ∀ v, Arc.output v p ∈ a.net.arcs ↔ v = t
  leaving : ∀ v k, k ≠ .output → (Arc.mk p v k ∈ a.net.arcs ↔ v = u ∧ k = .input)
  ne : t ≠ u
  silent : a.net.isSilent u
  sole : a.net.SoleInput p u
  apart : ∀ q, Arc.output t q ∈ a.net.arcs → Arc.output u q ∉ a.net.arcs
  unguarded : ∀ q v k, Arc.output u q ∈ a.net.arcs → k = .reset ∨ k = .inhibitor →
    Arc.mk q v k ∉ a.net.arcs

theorem seriesTransitionsAt?_eq_some_iff (h : a.net.incidence.Mirrored) {m : SeriesTransitions} :
    a.seriesTransitionsAt? p = some m ↔ a.SeriesTransitionsSite p m.first m.second := by
  constructor
  · intro hm
    unfold seriesTransitionsAt? at hm
    split at hm
    · cases hm
    · rename_i hp
      obtain ⟨hlive, hunmarked⟩ : a.net.hasPlace p = true ∧ a.isMarked p = false := by simpa using hp
      split at hm
      · rename_i t u hin hout
        split at hm
        · rename_i hcond
          cases hm
          obtain ⟨hne, hsilent, hlen, hdisjoint, hall⟩ := hcond
          -- lists with a single member say of the arcs which these are
          have hleaving := (Net.placeOutArcs_eq_singleton_iff h).1 hout
          have hinput : Arc.input p u ∈ a.net.arcs := (hleaving u _ (by decide)).2 ⟨rfl, rfl⟩
          exact {
            live := hlive
            unmarked := hunmarked
            producer := (Net.placeInArcs_eq_singleton_iff h).1 hin
            leaving := hleaving
            ne := hne
            silent := hsilent
            sole := (Net.length_transitionInArcs_eq_one_iff h hinput).1 hlen
            apart := (disjoint_postset_iff h).1 hdisjoint
            unguarded := (Net.all_postset_unguarded_iff h).1 hall }
        · cases hm
      · cases hm
  · intro hsite
    have hinput : Arc.input p m.second ∈ a.net.arcs :=
      (hsite.leaving m.second _ (by decide)).2 ⟨rfl, rfl⟩
    unfold seriesTransitionsAt?
    rw [if_neg (by simp [hsite.live, hsite.unmarked]),
      (Net.placeInArcs_eq_singleton_iff h).2 hsite.producer,
      (Net.placeOutArcs_eq_singleton_iff h).2 hsite.leaving]
    exact if_pos ⟨hsite.ne, hsite.silent,
      (Net.length_transitionInArcs_eq_one_iff h hinput).2 hsite.sole,
      (disjoint_postset_iff h).2 hsite.apart,
      (Net.all_postset_unguarded_iff h).2 hsite.unguarded⟩

/-- The silent transition `t` only moves a token from `p` to `q`, and these two could be one place. -/
structure SeriesPlacesSite (a : AcceptingNet) (t : TransitionId) (p q : PlaceId) : Prop where
  silent : a.net.isSilent t
  input : a.net.SoleInput p t
  output : a.net.SoleOutput t q
  ne : p ≠ q
  notFinal : a.final.contains p = false
  consumer : a.net.SoleConsumer p t
  apart : ∀ u, Arc.output u p ∈ a.net.arcs → Arc.output u q ∉ a.net.arcs
  guards : a.net.SameGuards p q

theorem seriesPlacesAt?_eq_some_iff (h : a.net.incidence.Mirrored) {m : SeriesPlaces} :
    a.seriesPlacesAt? t = some m ↔ a.SeriesPlacesSite t m.first m.second := by
  constructor
  · intro hm
    unfold seriesPlacesAt? at hm
    split at hm
    · cases hm
    · rename_i hsilent
      split at hm
      · rename_i p q hin hout
        split at hm
        · rename_i hcond
          cases hm
          obtain ⟨hne, hfinal, hconsumer, hapart, hguards⟩ := hcond
          exact {
            silent := by simpa using hsilent
            input := (soleInput?_eq_some_iff h).1 hin
            output := (soleOutput?_eq_some_iff h).1 hout
            ne := hne
            notFinal := by simpa using hfinal
            consumer := (Net.consumers_eq_singleton_iff h).1 hconsumer
            apart := (disjoint_producers_iff h).1 hapart
            guards := (sameGuards_eq_true_iff h).1 hguards }
        · cases hm
      · cases hm
  · intro hsite
    unfold seriesPlacesAt?
    rw [if_neg (by simp [hsite.silent]), (soleInput?_eq_some_iff h).2 hsite.input,
      (soleOutput?_eq_some_iff h).2 hsite.output]
    exact if_pos ⟨hsite.ne, by simp [hsite.notFinal], (Net.consumers_eq_singleton_iff h).2 hsite.consumer,
      (disjoint_producers_iff h).2 hsite.apart, (sameGuards_eq_true_iff h).2 hsite.guards⟩

/-! ## Self-loops -/

/-- The silent transition `t` only takes a token from `p` and puts it back, and `p` has at least two
other producers. -/
structure SelfLoopTransitionSite (a : AcceptingNet) (t : TransitionId) (p : PlaceId) : Prop where
  silent : a.net.isSilent t
  input : a.net.SoleInput p t
  output : a.net.SoleOutput t p
  produced : 2 ≤ ((a.net.producers p).filter (· ≠ t)).length

theorem selfLoopTransitionAt?_eq_some_iff (h : a.net.incidence.Mirrored) :
    a.selfLoopTransitionAt? t = some p ↔ a.SelfLoopTransitionSite t p := by
  constructor
  · intro hm
    unfold selfLoopTransitionAt? at hm
    split at hm
    · cases hm
    · rename_i hsilent
      split at hm
      · rename_i p' q hin hout
        split at hm
        · rename_i hcond
          cases hm
          obtain ⟨rfl, hproduced⟩ := hcond
          exact ⟨by simpa using hsilent, (soleInput?_eq_some_iff h).1 hin,
            (soleOutput?_eq_some_iff h).1 hout, hproduced⟩
        · cases hm
      · cases hm
  · intro hsite
    unfold selfLoopTransitionAt?
    rw [if_neg (by simp [hsite.silent]), (soleInput?_eq_some_iff h).2 hsite.input,
      (soleOutput?_eq_some_iff h).2 hsite.output]
    exact if_pos ⟨rfl, hsite.produced⟩

/-- The place `p` is marked at first, kept filled, and not in the final marking. -/
structure SelfLoopPlaceSite (a : AcceptingNet) (p : PlaceId) : Prop where
  live : a.net.hasPlace p
  marked : 0 < a.initial.tokens p
  notFinal : a.final.contains p = false
  refilled : a.net.Refilled p

theorem isSelfLoopPlace_iff (h : a.net.incidence.Mirrored) :
    a.isSelfLoopPlace p ↔ a.SelfLoopPlaceSite p := by
  have husers : ∀ t, t ∈ ascending ((a.net.placeOutArcs p).map (·.1)) ↔
      ∃ k, k ≠ .output ∧ Arc.mk p t k ∈ a.net.arcs := by
    intro t
    rw [mem_ascending, List.mem_map]
    constructor
    · rintro ⟨⟨_, k⟩, he, rfl⟩
      exact ⟨k, (Net.mem_placeOutArcs h).1 he⟩
    · rintro ⟨k, hk⟩
      exact ⟨(t, k), (Net.mem_placeOutArcs h).2 hk, rfl⟩
  have hrestored : (ascending ((a.net.placeOutArcs p).map (·.1))).all (a.net.producers p).contains ↔
      ∀ t k, k ≠ .output → Arc.mk p t k ∈ a.net.arcs → Arc.output t p ∈ a.net.arcs := by
    simp only [List.all_eq_true, List.contains_iff_mem, Net.mem_producers h, husers]
    exact ⟨fun hall t k hk ht => hall t ⟨k, hk, ht⟩, fun hall t ⟨k, hk, ht⟩ => hall t k hk ht⟩
  unfold isSelfLoopPlace
  simp only [Bool.and_eq_true, decide_eq_true_eq, Net.isEmpty_inhibited_iff h, hrestored,
    Bool.not_eq_true', ne_eq]
  constructor
  · rintro ⟨⟨⟨⟨⟨hlive, hmarked⟩, hfinal⟩, hfree⟩, hrestored⟩, hall⟩
    refine ⟨hlive, Nat.pos_of_ne_zero hmarked, hfinal, hfree, hrestored, fun t ho => ?_⟩
    -- The rule compares the producers with all that has an arc from the place, inhibitors included.
    rw [← Net.mem_producers h, ← hall, mem_ascending, List.mem_append, Net.mem_resetters h,
      husers] at ho
    rcases ho with hr | ⟨k, hk, huse⟩
    · exact .inr hr
    · cases k with
      | input => exact .inl huse
      | reset => exact .inr huse
      | inhibitor => exact absurd huse (hfree t)
      | output => exact absurd rfl hk
  · rintro ⟨hlive, hmarked, hfinal, hfree, hrestored, hused⟩
    refine ⟨⟨⟨⟨⟨hlive, Nat.ne_of_gt hmarked⟩, hfinal⟩, hfree⟩, hrestored⟩, ?_⟩
    refine (ascending_ascending _).ext (Net.ascending_transitionsAt a.net p .output) fun t => ?_
    rw [Net.mem_producers h, mem_ascending, List.mem_append, Net.mem_resetters h, husers]
    constructor
    · rintro (hr | ⟨k, hk, huse⟩)
      · exact hrestored t .reset (by decide) hr
      · exact hrestored t k hk huse
    · intro ho
      rcases hused t ho with hi | hr
      · exact .inr ⟨.input, by decide, hi⟩
      · exact .inl hr

/-! ## Silent steps -/

/-- The silent transition `t` only takes a token from the unmarked place `s`, and can be skipped. -/
structure SilentStepSite (a : AcceptingNet) (t : TransitionId) (s : PlaceId) : Prop where
  silent : a.net.isSilent t
  input : a.net.SoleInput s t
  unmarked : a.isMarked s = false
  consumer : a.net.SoleConsumer s t
  produced : ∃ u, Arc.output u s ∈ a.net.arcs
  aimed : ∃ q, Arc.output t q ∈ a.net.arcs
  noLoop : Arc.output t s ∉ a.net.arcs
  apart : ∀ u q, Arc.output u s ∈ a.net.arcs → Arc.output t q ∈ a.net.arcs →
    Arc.output u q ∉ a.net.arcs
  guards : ∀ q, Arc.output t q ∈ a.net.arcs → a.net.SameGuards q s

theorem silentStepAt?_eq_some_iff (h : a.net.incidence.Mirrored) {m : SilentStep} :
    a.silentStepAt? t = some m ↔ a.SilentStepSite t m.place ∧
      m.producers = a.net.producers m.place ∧ m.targets = a.net.postset t := by
  have hguards : ∀ {s}, ((a.net.postset t).all fun q => a.sameGuards q s) ↔
      ∀ q, Arc.output t q ∈ a.net.arcs → a.net.SameGuards q s := by
    intro s
    simp only [List.all_eq_true, Net.mem_postset h, sameGuards_eq_true_iff h]
  constructor
  · intro hm
    unfold silentStepAt? at hm
    split at hm
    · cases hm
    · rename_i hsilent
      split at hm
      · rename_i s hin
        dsimp only at hm
        split at hm
        · rename_i hcond
          cases hm
          obtain ⟨hunmarked, hconsumer, hp, ht, hloop, _, hnew, hsame⟩ := hcond
          exact ⟨{
            silent := by simpa using hsilent
            input := (soleInput?_eq_some_iff h).1 hin
            unmarked := by simpa using hunmarked
            consumer := (Net.consumers_eq_singleton_iff h).1 hconsumer
            produced := (Net.producers_ne_nil_iff h).1 hp
            aimed := (Net.postset_ne_nil_iff h).1 ht
            noLoop := fun ho => hloop ((Net.mem_producers h).2 ho)
            apart := (Net.all_producers_apart_iff h).1 hnew
            guards := hguards.1 hsame }, rfl, rfl⟩
        · cases hm
      · cases hm
  · rintro ⟨hsite, hp, ht⟩
    obtain ⟨s, producers, targets⟩ := m
    dsimp only at hp ht
    subst hp ht
    unfold silentStepAt?
    rw [if_neg (by simp [hsite.silent]), (soleInput?_eq_some_iff h).2 hsite.input]
    -- the rule asks from both ends that the step does not lead back
    refine if_pos ⟨by simp [hsite.unmarked], (Net.consumers_eq_singleton_iff h).2 hsite.consumer,
      (Net.producers_ne_nil_iff h).2 hsite.produced, (Net.postset_ne_nil_iff h).2 hsite.aimed, ?_, ?_,
      (Net.all_producers_apart_iff h).2 hsite.apart, hguards.2 hsite.guards⟩
    · exact fun hu => hsite.noLoop ((Net.mem_producers h).1 hu)
    · exact fun hs => hsite.noLoop ((Net.mem_postset h).1 hs)

/-! ## Shapes -/

theorem transitionShape_congr {b : AcceptingNet} (h : a.net.incidence.Mirrored)
    (h' : b.net.incidence.Mirrored)
    (hsame : ∀ p k, Arc.mk p t k ∈ a.net.arcs ↔ Arc.mk p u k ∈ b.net.arcs) :
    a.transitionShape t = b.transitionShape u := by
  have hplaces : ∀ k, a.net.placesAt t k = b.net.placesAt u k := fun k =>
    Net.placesAt_congr h h' fun p => hsame p k
  unfold transitionShape Net.preset Net.postset Net.resetPlaces Net.inhibitorPlaces
  simp only [hplaces]

theorem placeShape_congr {b : AcceptingNet} (h : a.net.incidence.Mirrored)
    (h' : b.net.incidence.Mirrored)
    (hsame : ∀ t k, Arc.mk p t k ∈ a.net.arcs ↔ Arc.mk q t k ∈ b.net.arcs)
    (hinitial : a.initial.tokens p = b.initial.tokens q)
    (hfinal : a.final.tokens p = b.final.tokens q) : a.placeShape p = b.placeShape q := by
  have htransitions : ∀ k, a.net.transitionsAt p k = b.net.transitionsAt q k := fun k =>
    Net.transitionsAt_congr h h' fun t => hsame t k
  unfold placeShape Net.producers Net.consumers Net.resetters Net.inhibited
  simp only [htransitions, hinitial, hfinal]

end AcceptingNet

end ProcessNet
