/-
Deadlocks. A net comes to rest only where the place of an agglomeration is empty, since the silent
transition behind it could fire otherwise, and only where two places with the same arcs hold the same
number of tokens, since they did so all along. So a marking without the places that a step has removed
still tells the marking, and each step carries the reachable dead markings over one by one. Only the
removal of self-loops does not: a self-loop is no deadlock, and a deadlock without it.
-/
import Mathlib.Data.Set.Function
import ProcessNet.Proofs.Net.Gate
import ProcessNet.Proofs.Reduction.Bound

namespace ProcessNet

namespace Net

/-- No transition can fire. -/
def Dead (n : Net) (x : Tokens) : Prop := ∀ t, ¬ n.Enabled t x

/-- The counts on the places of `n` that are left in `n'`. What is no place of `n` keeps its count. -/
def restrict (n n' : Net) (x : Tokens) : Tokens := fun p =>
  if n.hasPlace p ∧ ¬ n'.hasPlace p then 0 else x p

variable {n n' n'' : Net} {x y : Tokens}

theorem reachable_iff_accepts : n.Reachable x y ↔ ∃ w, n.Accepts x y w :=
  ⟨fun ⟨ts, hrun⟩ => ⟨n.trace ts, ts, hrun, rfl⟩, fun ⟨_, ts, hrun, _⟩ => ⟨ts, hrun⟩⟩

/-- Where the same label sequences are accepted, the same counts are reached. -/
theorem reachable_congr {x' y' : Tokens} (h : ∀ w, n.Accepts x y w ↔ n'.Accepts x' y' w) :
    n.Reachable x y ↔ n'.Reachable x' y' := by
  rw [reachable_iff_accepts, reachable_iff_accepts]
  exact exists_congr h

/-! ## Counts on what is left -/

theorem restrict_of_same (h : ∀ p, n.hasPlace p → n'.hasPlace p) (x : Tokens) :
    n.restrict n' x = x :=
  funext fun p => if_neg fun hp => hp.2 (h p hp.1)

/-- With one place gone, nothing else is left out. -/
theorem restrict_of_gone {d : PlaceId} (hd : n.hasPlace d)
    (h : ∀ q, n'.place? q = if q = d then none else n.place? q) (x : Tokens) :
    n.restrict n' x = without d x := by
  funext q
  unfold restrict without
  refine if_congr ?_ rfl rfl
  rw [Net.hasPlace.eq_1 n', h]
  by_cases hq : q = d
  · rw [if_pos hq, hq, hd]
    exact iff_of_true ⟨rfl, Bool.false_ne_true⟩ rfl
  · rw [if_neg hq]
    exact iff_of_false (fun hgone => hgone.2 hgone.1) hq

theorem restrict_restrict (h : ∀ p, n'.hasPlace p → n.hasPlace p)
    (h' : ∀ p, n''.hasPlace p → n'.hasPlace p) (x : Tokens) :
    n'.restrict n'' (n.restrict n' x) = n.restrict n'' x := by
  funext p
  have hp := h p
  have hp' := h' p
  unfold restrict
  grind

theorem Consistent.length_placeIds (h : n.Consistent) : n.placeIds.length = n.placeCount := by
  rw [placeCount, h.placeNames.size, placeIds, List.length_map]
  exact Arena.length_filterMap_entries n.places fun p x => (p, x)

/-- What went away was there. -/
theorem PlaceGone.hasPlace {d : PlaceId} (h : PlaceGone n d n') (hn : n.Consistent) :
    n.hasPlace d := by
  by_contra hd
  have hsame : ∀ q, n'.hasPlace q ↔ n.hasPlace q := fun q =>
    h.hasPlace_iff.trans (and_iff_left_of_imp fun hq he => hd (he ▸ hq))
  have hperm : n'.placeIds.Perm n.placeIds :=
    (List.perm_ext_iff_of_nodup (nodup_placeIds n') (nodup_placeIds n)).2 fun q => by
      rw [mem_placeIds, mem_placeIds, hsame]
  have hlength := hperm.length_eq
  rw [h.consistent.length_placeIds, hn.length_placeIds] at hlength
  have := h.placeCount
  omega

/-! ## Agglomerations -/

namespace Agglomerated

variable {p : PlaceId} {u : TransitionId}

/-- Where the fused place is empty, both nets are at rest together. -/
theorem dead_iff (h : Agglomerated n p u n') (hx : x p = 0) : n'.Dead x ↔ n.Dead x := by
  constructor
  · intro hdead t he
    have ht : t ≠ u := by
      rintro rfl
      have := he.marked p h.input
      omega
    have he' := h.enabled_forwarded ht he
    rw [forwarded_of_empty hx] at he'
    exact hdead t he'
  · intro hdead t he
    have ht : t ≠ u := by
      rintro rfl
      have hlive := he.live
      rw [hasTransition, h.transition?, if_pos rfl] at hlive
      cases hlive
    exact hdead t (h.enabled_of_empty hx ht he)

/-- The net is not at rest before the fused place is empty. -/
theorem eq_zero_of_dead (h : Agglomerated n p u n') (hdead : n.Dead x) : x p = 0 := by
  by_contra hx
  exact hdead u (h.enabled_fused (Nat.pos_of_ne_zero hx))

theorem eq_zero_of_reachable (h : Agglomerated n p u n')
    (hreach : n'.Reachable (n.forwarded p u x) y) : y p = 0 := by
  obtain ⟨ts, hrun⟩ := hreach
  exact eq_zero_of_run hrun (fun t _ hout => h.place_ne hout rfl) (if_pos rfl)

end Agglomerated

/-! ## Twin places -/

section Twin

variable {k d : PlaceId}

theorem eq_of_run_of_twin (hsame : ∀ t κ, Arc.mk d t κ ∈ n.arcs ↔ Arc.mk k t κ ∈ n.arcs)
    (hreach : n.Reachable x y) (hx : x d = x k) : y d = y k := by
  obtain ⟨ts, hrun⟩ := hreach
  induction hrun with
  | stay => exact hx
  | @fire x y t _ _ _ ih => exact ih (PlaceGone.after_twin hsame t x hx)

/-- The place that is kept holds up each transition that the other one does. -/
theorem PlaceGone.dead_iff_of_twin (h : PlaceGone n d n') (hne : k ≠ d)
    (hsame : ∀ t κ, Arc.mk d t κ ∈ n.arcs ↔ Arc.mk k t κ ∈ n.arcs) (hx : x d = x k) :
    n'.Dead (without d x) ↔ n.Dead x := by
  constructor
  · exact fun hdead t he => hdead t (h.enabled_without he)
  · intro hdead t he
    refine hdead t (h.enabled_of_without he (fun hd => ?_) fun hd => ?_)
    · rw [hx, ← without_of_ne hne x]
      exact he.marked k ((h.mem_arcs _).2 ⟨(hsame t .input).1 hd, hne⟩)
    · rw [hx, ← without_of_ne hne x]
      exact he.unmarked k ((h.mem_arcs _).2 ⟨(hsame t .inhibitor).1 hd, hne⟩)

end Twin

end Net

namespace AcceptingNet

/-- The counts that can be reached and where no transition can fire. -/
def deadlocks (a : AcceptingNet) : Set Tokens :=
  {x | a.net.Reachable a.initial.tokens x ∧ a.net.Dead x}

/-- The places of `a'` are places of `a`, and without the others each deadlock of `a` is one of `a'`,
no two the same and none left out. -/
structure Rests (a a' : AcceptingNet) : Prop where
  left : ∀ p, a'.net.hasPlace p → a.net.hasPlace p
  bijOn : Set.BijOn (a.net.restrict a'.net) a.deadlocks a'.deadlocks

variable {a a' a'' : AcceptingNet}

theorem Rests.of_eq (hleft : ∀ p, a'.net.hasPlace p → a.net.hasPlace p)
    (h : a.deadlocks = a'.deadlocks) (hstill : ∀ x ∈ a.deadlocks, a.net.restrict a'.net x = x) :
    Rests a a' :=
  ⟨hleft, (Set.EqOn.bijOn_iff hstill).2 (h ▸ Set.bijOn_id _)⟩

theorem Rests.refl (a : AcceptingNet) : Rests a a :=
  .of_eq (fun _ => id) rfl fun x _ => Net.restrict_of_same (fun _ => id) x

theorem Rests.trans (h : Rests a a') (k : Rests a' a'') : Rests a a'' := by
  refine ⟨fun p hp => h.left p (k.left p hp), ?_⟩
  have hcomp : a.net.restrict a''.net = a'.net.restrict a''.net ∘ a.net.restrict a'.net :=
    funext fun x => (Net.restrict_restrict h.left k.left x).symm
  exact hcomp ▸ k.bijOn.comp h.bijOn

/-! ## What each step does to the deadlocks -/

theorem rests_of_fused {n : Net} {p : PlaceId} {u : TransitionId} {initial final : Marking}
    (ha : a.net.Consistent) (h : a.net.Fused p u n)
    (hinitial : initial.tokens = a.net.forwarded p u a.initial.tokens) :
    Rests a ⟨n, initial, final⟩ := by
  have hplace : a.net.hasPlace p := ha.livePlace _ h.input
  refine .of_eq (fun q hq => (h.hasPlace_iff.1 hq).2) (Set.ext fun x => ⟨?_, ?_⟩) fun x hx => ?_
  · rintro ⟨hreach, hdead⟩
    have hx := h.eq_zero_of_dead hdead
    refine ⟨?_, (h.dead_iff hx).2 hdead⟩
    rw [hinitial]
    exact (Net.reachable_congr fun w => h.accepts_iff hx).1 hreach
  · rintro ⟨hreach, hdead⟩
    rw [hinitial] at hreach
    have hx := h.eq_zero_of_reachable hreach
    exact ⟨(Net.reachable_congr fun w => h.accepts_iff hx).2 hreach, (h.dead_iff hx).1 hdead⟩
  · rw [Net.restrict_of_gone hplace h.place?]
    funext q
    by_cases hq : q = p
    · rw [hq, Net.without, if_pos rfl, h.eq_zero_of_dead hx.2]
    · exact Net.PlaceGone.without_of_ne hq x

theorem rests_of_fused_of_unmarked {n : Net} {p : PlaceId} {u : TransitionId}
    (ha : a.net.Consistent) (h : a.net.Fused p u n) (hunmarked : a.isMarked p = false) :
    Rests a ⟨n, a.initial, a.final⟩ :=
  rests_of_fused ha h (Net.forwarded_of_empty (tokens_of_not_isMarked hunmarked).1).symm

/-- With the twin that `FPT` removes the one that is kept is enabled, too. -/
theorem TwinTransitionGone.rests {k d : TransitionId} (h : TwinTransitionGone k d a a') :
    Rests a a' := by
  have hkept : a'.net.hasTransition k :=
    h.gone.hasTransition_iff.2 ⟨(Net.isSilent_iff.1 h.kept).1, h.ne⟩
  have hplaces : ∀ p, a'.net.hasPlace p ↔ a.net.hasPlace p := fun p => by
    rw [Net.hasPlace, Net.hasPlace, h.gone.place?]
  refine .of_eq (fun p => (hplaces p).1) (Set.ext fun x => and_congr ?_ ⟨?_, ?_⟩)
    fun x _ => Net.restrict_of_same (fun p => (hplaces p).2) x
  · rw [h.initial]
    exact Net.reachable_congr fun w => h.gone.accepts_iff_of_twin h.ne h.kept h.silent h.same
  · intro hdead t he
    obtain ⟨hlive, ht⟩ := h.gone.hasTransition_iff.1 he.live
    have hsame : a'.net.SameArcs t a.net t := fun p κ => (h.gone.sameArcs ht p κ).symm
    exact hdead t (hsame.enabled hlive he)
  · intro hdead t he
    by_cases ht : t = d
    · subst ht
      have hsame : a.net.SameArcs t a'.net k := fun p κ =>
        (h.same p κ).trans (h.gone.sameArcs h.ne p κ)
      exact hdead k (hsame.enabled hkept he)
    · have hlive := h.gone.hasTransition_iff.2 ⟨he.live, ht⟩
      exact hdead t ((h.gone.sameArcs ht).enabled hlive he)

/-- Both twins of `FPP` hold the same all along, so the one that is kept tells what the other one holds. -/
theorem TwinPlaceGone.rests {k d : PlaceId} (ha : a.net.Consistent) (h : TwinPlaceGone k d a a') :
    Rests a a' := by
  have hinitial : a'.initial.tokens = Net.without d a.initial.tokens := by
    rw [h.initial, Net.tokens_take]
  have hrestrict : a.net.restrict a'.net = Net.without d :=
    funext (Net.restrict_of_gone (h.gone.hasPlace ha) h.gone.place?)
  have htwin : ∀ x ∈ a.deadlocks, x d = x k := fun x hx =>
    Net.eq_of_run_of_twin h.same hx.1 h.sameInitial
  refine ⟨fun p hp => (h.gone.hasPlace_iff.1 hp).1, hrestrict ▸ ⟨?_, ?_, ?_⟩⟩
  · intro x hx
    refine ⟨?_, (h.gone.dead_iff_of_twin h.ne h.same (htwin x hx)).2 hx.2⟩
    rw [hinitial]
    exact (Net.reachable_congr fun w => h.gone.accepts_iff_of_twin h.ne h.same h.sameInitial
      (htwin x hx)).1 hx.1
  · intro x hx y hy he
    funext q
    by_cases hq : q = d
    · rw [hq, htwin x hx, htwin y hy, ← Net.PlaceGone.without_of_ne h.ne x, he,
        Net.PlaceGone.without_of_ne h.ne]
    · rw [← Net.PlaceGone.without_of_ne hq x, he, Net.PlaceGone.without_of_ne hq]
  · rintro y ⟨hreach, hdead⟩
    obtain ⟨ts, hrun⟩ := hreach
    rw [hinitial] at hrun
    obtain ⟨us, x, hx, _, htwin', rfl⟩ :=
      (h.gone.simulates_back_of_twin h.ne h.same).run ⟨h.sameInitial, rfl⟩ hrun
    exact ⟨x, ⟨⟨us, hx⟩, (h.gone.dead_iff_of_twin h.ne h.same htwin').1 hdead⟩, rfl⟩

theorem Dropped.rests {ι : Type} {Drop : ι → AcceptingNet → AcceptingNet → Prop}
    (hdrop : ∀ d a a', a.net.Consistent → Drop d a a' → a'.net.Consistent ∧ Rests a a')
    {l : List ι} (ha : a.net.Consistent) (h : Dropped Drop l a a') : Rests a a' := by
  induction h with
  | nil => exact .refl _
  | cons hd _ ih =>
    obtain ⟨hcons, hfirst⟩ := hdrop _ _ _ ha hd
    exact hfirst.trans (ih hcons)

theorem rests_of_needlessReset {p : PlaceId} {t : TransitionId} {n : Net}
    (hin : Arc.inhibitor p t ∈ a.net.arcs) (h : a.net.ResetGone p t n) :
    Rests a ⟨n, a.initial, a.final⟩ := by
  have hplaces : ∀ q, n.hasPlace q ↔ a.net.hasPlace q := fun q => by rw [h.nodes.hasPlace]
  refine .of_eq (fun q => (hplaces q).1) (Set.ext fun x => and_congr ?_ ?_)
    fun x _ => Net.restrict_of_same (fun q => (hplaces q).2) x
  · exact Net.reachable_congr fun w => Net.accepts_iff_of_needlessReset h.nodes h.mem_arcs hin
  · exact forall_congr' fun u => not_congr (Net.enabled_iff_of_ne_reset h.nodes h.mem_arcs).symm

/-- Every step but those of `ELT` and `ELP` carries the deadlocks over. -/
theorem Rewritten.rests {step : ReductionStep} (ha : a.net.Consistent) (h : a.Rewritten step a')
    (helt : step.rule ≠ .elt) (help : step.rule ≠ .elp) : Rests a a' := by
  have hmirrored := ha.mirrored
  cases h with
  | seriesTransitions hm h =>
    exact rests_of_fused_of_unmarked ha h (seriesTransitionsAt?_eq_some hmirrored hm).2.1
  | @seriesPlaces t m n initial hm h hmove =>
    exact rests_of_fused ha h (tokens_of_seriesPlaces hmirrored hm hmove)
  | parallelTransitions _ h =>
    exact h.rests (fun _ _ _ _ hd => ⟨hd.gone.consistent, hd.rests⟩) ha
  | parallelPlaces _ h =>
    exact h.rests (fun _ _ _ hcons hd => ⟨hd.gone.consistent, hd.rests hcons⟩) ha
  | selfLoopTransition => exact absurd rfl helt
  | selfLoopPlace => exact absurd rfl help
  | silentStep hm h =>
    exact rests_of_fused_of_unmarked ha h (silentStepAt?_eq_some hmirrored hm).1
  | reset _ hin h => exact rests_of_needlessReset hin h

end AcceptingNet

namespace Reduction

theorem Rewrites.rests {s s' : Reduction} (hs : s.net.Consistent) (h : Rewrites s s')
    (helt : .elt ∉ s'.rules) (help : .elp ∉ s'.rules) : s.accepting.Rests s'.accepting := by
  refine (h.induct (I := fun s' => .elt ∉ s'.rules → .elp ∉ s'.rules →
    s.accepting.Rests s'.accepting) hs (fun _ _ => .refl _) ?_).2 helt help
  rintro s₁ s₂ hs₁ ih ⟨step, hstep, hsteps⟩ helt help
  have hrules : ∀ rule, rule ∈ s₂.rules ↔ rule ∈ s₁.rules ∨ rule = step.rule := fun rule => by
    simp [rules, hsteps]
  simp only [hrules, not_or] at helt help
  exact (ih helt.1 help.1).trans (hstep.rests hs₁ (Ne.symm helt.2) (Ne.symm help.2))

end Reduction

namespace AcceptingNet

open Reduction

/-- The reachable markings in which nothing can fire, told by the places that are left, are those of the
net that `reduce` leaves, as far as neither `ELT` nor `ELP` was applied. -/
theorem reduce_keeps_deadlocks {a b : AcceptingNet} {options : ReductionOptions}
    {report : ReductionReport} (hnet : a.net.checkConsistency = .ok ()) (hnodup : a.net.arcs.Nodup)
    (hb : a.reduce options = ⟨b, .ok report⟩) (helt : .elt ∉ report.steps.map ReductionStep.rule)
    (help : .elp ∉ report.steps.map ReductionStep.rule) :
    (∀ p, b.net.hasPlace p → a.net.hasPlace p) ∧
      Set.BijOn (a.net.restrict b.net) a.deadlocks b.deadlocks := by
  have hstart : ({ accepting := a } : Reduction).net.Consistent :=
    (Net.consistent_iff_checkConsistency hnodup).2 hnet
  obtain ⟨s, hrun, rfl⟩ := complete_of_reduce hb
  have hends := ends_complete options hstart
  rw [hrun] at hends
  obtain ⟨hreport, hsteps⟩ := hends
  rw [hreport] at helt help
  obtain ⟨hleft, hbij⟩ := hsteps.rests hstart helt help
  exact ⟨hleft, hbij⟩

/-- The workshop rests in the same markings when it is reduced, told by the four places that are left. -/
theorem workshop_keeps_deadlocks :
    (∀ p, tidied.net.hasPlace p → workshop.net.hasPlace p) ∧
      Set.BijOn (workshop.net.restrict tidied.net) workshop.deadlocks tidied.deadlocks :=
  reduce_keeps_deadlocks (by decide +kernel) (by decide) reduce_workshop (by decide) (by decide)

end AcceptingNet

end ProcessNet
