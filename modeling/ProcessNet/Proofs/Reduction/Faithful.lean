/-
What the steps of a reduction keep of a well-formed net with its markings: it stays well-formed, bounded if
it was so at the start, and it has the language of the start, until a self-loop place is removed, which
shows that the language of the start is empty. So a bounded start rules out that a count overflows.
-/
import ProcessNet.Proofs.Reduction.Turn

namespace ProcessNet

namespace AcceptingNet

variable {a a' a'' : AcceptingNet}

/-- Counts stay bounded where the old net dominates the new one. -/
theorem bounded_of_dominates
    (h : a.net.Dominates a.initial.tokens a'.net a'.initial.tokens) (ha : a.Bounded) :
    a'.Bounded := by
  intro y hy p
  obtain ⟨x, hx, hle⟩ := h y hy
  exact (hle p).trans (ha x hx p)

/-- `a'` is well-formed, bounded if `a` is, and has the language of `a`. -/
structure Kept (a a' : AcceptingNet) : Prop where
  wellFormed : a'.WellFormed
  bounded : a.Bounded → a'.Bounded
  language : ∀ w, a.Accepts w ↔ a'.Accepts w

theorem Kept.refl (h : a.WellFormed) : Kept a a := ⟨h, id, fun _ => Iff.rfl⟩

theorem Kept.trans (h : Kept a a') (k : Kept a' a'') : Kept a a'' :=
  ⟨k.wellFormed, fun ha => k.bounded (h.bounded ha), fun w => (h.language w).trans (k.language w)⟩

/-! ## What each step keeps -/

/-- A fusion around a place whose tokens, if it has any, are moved to where they would come anyway. -/
theorem kept_of_fused {n : Net} {p : PlaceId} {u : TransitionId} {initial : Marking}
    (ha : a.WellFormed) (h : a.net.Fused p u n) (hcanon : initial.Canonical)
    (hinitial : initial.tokens = a.net.forwarded p u a.initial.tokens)
    (hfinal : a.final.tokens p = 0) : Kept a ⟨n, initial, a.final⟩ where
  wellFormed := ⟨h.consistent, hcanon, ha.final⟩
  bounded := bounded_of_dominates (hinitial ▸ h.dominates a.initial.tokens)
  language w := by
    unfold Accepts
    rw [hinitial]
    exact h.accepts_iff hfinal

theorem kept_of_fused_of_unmarked {n : Net} {p : PlaceId} {u : TransitionId} (ha : a.WellFormed)
    (h : a.net.Fused p u n) (hunmarked : a.isMarked p = false) :
    Kept a ⟨n, a.initial, a.final⟩ :=
  kept_of_fused ha h ha.initial
    (Net.forwarded_of_empty (tokens_of_not_isMarked hunmarked).1).symm
    (tokens_of_not_isMarked hunmarked).2

/-- Moved to the second place, the tokens of the first one are where the transition would put them. -/
theorem tokens_of_seriesPlaces {t : TransitionId} {m : SeriesPlaces} {initial : Marking}
    (hmirrored : a.net.incidence.Mirrored) (hm : a.seriesPlacesAt? t = some m)
    (hmove : a.initial.moveAll m.first m.second = .ok initial) :
    initial.tokens = a.net.forwarded m.first t a.initial.tokens := by
  obtain ⟨_, hagg, htarget⟩ := seriesPlacesAt?_eq_some hmirrored hm
  have hne : m.second ≠ m.first := fun he => hagg.noLoop (he ▸ (htarget m.second).2 rfl)
  funext q
  rw [Marking.tokens_moveAll hne hmove]
  simp only [Net.forwarded, htarget]

theorem TwinTransitionGone.keeps {k d : TransitionId} (ha : a.WellFormed)
    (h : TwinTransitionGone k d a a') : Kept a a' where
  wellFormed := ⟨h.gone.consistent, h.initial ▸ ha.initial, h.final ▸ ha.final⟩
  bounded := bounded_of_dominates (h.initial ▸ h.gone.dominates _)
  language w := by
    unfold Accepts
    rw [h.initial, h.final]
    exact h.gone.accepts_iff_of_twin h.ne h.kept h.silent h.same

theorem TwinPlaceGone.keeps {k d : PlaceId} (ha : a.WellFormed) (h : TwinPlaceGone k d a a') :
    Kept a a' where
  wellFormed := ⟨h.gone.consistent, h.initial ▸ ha.initial.take d, h.final ▸ ha.final.take d⟩
  bounded := by
    refine bounded_of_dominates ?_
    rw [h.initial, Net.tokens_take]
    exact h.gone.dominates_of_twin h.ne h.same h.sameInitial
  language w := by
    unfold Accepts
    rw [h.initial, h.final, Net.tokens_take, Net.tokens_take]
    exact h.gone.accepts_iff_of_twin h.ne h.same h.sameInitial h.sameFinal

theorem Dropped.keeps {ι : Type} {Drop : ι → AcceptingNet → AcceptingNet → Prop}
    (hdrop : ∀ d a a', a.WellFormed → Drop d a a' → Kept a a') {l : List ι} (ha : a.WellFormed)
    (h : Dropped Drop l a a') : Kept a a' := by
  induction h with
  | nil => exact .refl ha
  | cons hd _ ih =>
    have hfirst := hdrop _ _ _ ha hd
    exact hfirst.trans (ih hfirst.wellFormed)

/-- Every step but the removal of a self-loop place keeps the language. -/
theorem Rewritten.keeps {step : ReductionStep} (ha : a.WellFormed) (h : a.Rewritten step a')
    (hstep : step.rule ≠ .elp) : Kept a a' := by
  have hmirrored := ha.consistent.mirrored
  cases h with
  | seriesTransitions hm h =>
    exact kept_of_fused_of_unmarked ha h (seriesTransitionsAt?_eq_some hmirrored hm).2.1
  | @seriesPlaces t m n initial hm h hmove =>
    exact kept_of_fused ha h (ha.initial.moveAll hmove) (tokens_of_seriesPlaces hmirrored hm hmove)
      (seriesPlacesAt?_eq_some hmirrored hm).1
  | parallelTransitions _ h => exact h.keeps (fun _ _ _ ha hd => hd.keeps ha) ha
  | parallelPlaces _ h => exact h.keeps (fun _ _ _ ha hd => hd.keeps ha) ha
  | selfLoopTransition hm h =>
    obtain ⟨hsilent, hin, hout⟩ := selfLoopTransitionAt?_eq_some hmirrored hm
    exact ⟨⟨h.consistent, ha.initial, ha.final⟩, bounded_of_dominates (h.dominates _),
      fun w => h.accepts_iff_of_selfLoop hsilent hin hout⟩
  | selfLoopPlace => exact absurd rfl hstep
  | silentStep hm h =>
    exact kept_of_fused_of_unmarked ha h (silentStepAt?_eq_some hmirrored hm).1
  | reset _ hin h =>
    exact ⟨⟨h.consistent, ha.initial, ha.final⟩,
      bounded_of_dominates (Net.dominates_of_needlessReset h.nodes h.mem_arcs hin _),
      fun w => Net.accepts_iff_of_needlessReset h.nodes h.mem_arcs hin⟩

/-- The removal of a self-loop place shows that nothing was accepted before. -/
theorem Rewritten.dead {step : ReductionStep} (ha : a.WellFormed) (h : a.Rewritten step a')
    (hstep : step.rule = .elp) :
    a'.WellFormed ∧ (a.Bounded → a'.Bounded) ∧ ∀ w, ¬ a.Accepts w := by
  cases h with
  | @selfLoopPlace p n hm h =>
    obtain ⟨_, hx, hy, hfree, hrefilled⟩ := refilled_of_isSelfLoopPlace ha.consistent.mirrored hm
    refine ⟨⟨h.consistent, ha.initial.take p, ha.final⟩, bounded_of_dominates ?_,
      Net.not_accepts_of_refilled hrefilled hx hy⟩
    rw [Net.tokens_take]
    exact h.dominates_of_refilled hrefilled hfree hx
  | _ => cases hstep

/-- Tokens that no count can tell could come together by themselves. -/
theorem not_overfull_of_bounded (hmirrored : a.net.incidence.Mirrored) (ha : a.Bounded) :
    ¬ a.Overfull := by
  rintro ⟨t, m, hm, hmax⟩
  obtain ⟨_, hagg, htarget⟩ := seriesPlacesAt?_eq_some hmirrored hm
  have houtput : Arc.output t m.second ∈ a.net.arcs := (htarget m.second).2 rfl
  have hne : m.second ≠ m.first := fun he => hagg.noLoop (he ▸ houtput)
  obtain ⟨us, hrun, _⟩ := hagg.run_fused a.initial.tokens
  have hsum := ha _ ⟨us, hrun⟩ m.second
  rw [Net.forwarded, if_neg hne, if_pos houtput] at hsum
  omega

end AcceptingNet

namespace Reduction

/-- What the states of a reduction have in common with the accepting net that it started from. -/
structure Faithful (a : AcceptingNet) (s : Reduction) : Prop where
  wellFormed : s.accepting.WellFormed
  bounded : a.Bounded → s.accepting.Bounded
  language : .elp ∉ s.rules → ∀ w, a.Accepts w ↔ s.accepting.Accepts w
  dead : .elp ∈ s.rules → ∀ w, ¬ a.Accepts w

theorem Faithful.start {a : AcceptingNet} (h : a.WellFormed) : Faithful a { accepting := a } :=
  ⟨h, id, fun _ _ => Iff.rfl, fun hmem => nomatch hmem⟩

theorem Faithful.step {a : AcceptingNet} {s s' : Reduction} (h : Faithful a s)
    (hstep : Rewrite s s') : Faithful a s' := by
  obtain ⟨step, hstep, hsteps⟩ := hstep
  have hrules : ∀ rule, rule ∈ s'.rules ↔ rule ∈ s.rules ∨ rule = step.rule := fun rule => by
    simp [rules, hsteps]
  by_cases help : step.rule = .elp
  · obtain ⟨hwf, hbounded, hdead⟩ := hstep.dead h.wellFormed help
    refine ⟨hwf, fun ha => hbounded (h.bounded ha), fun hnot => ?_, fun _ w => ?_⟩
    · exact absurd ((hrules _).2 (.inr help.symm)) hnot
    · by_cases hmem : .elp ∈ s.rules
      · exact h.dead hmem w
      · exact fun hw => hdead w ((h.language hmem w).1 hw)
  · have hkept := hstep.keeps h.wellFormed help
    have hsame : .elp ∈ s'.rules ↔ .elp ∈ s.rules := by
      rw [hrules, or_iff_left fun he => help he.symm]
    refine ⟨hkept.wellFormed, fun ha => hkept.bounded (h.bounded ha), fun hnot w => ?_,
      fun hmem => h.dead (hsame.1 hmem)⟩
    exact (h.language (fun hmem => hnot (hsame.2 hmem)) w).trans (hkept.language w)

theorem Faithful.of_rewrites {a : AcceptingNet} {s s' : Reduction} (h : Faithful a s)
    (hsteps : Rewrites s s') : Faithful a s' := by
  induction hsteps with
  | refl => exact h
  | tail _ hlast ih => exact ih.step hlast

/-- How a reduction of a well-formed net stops early: a count overflows, or the checker objects to a
state that a further step has led to. -/
def Stopped (checker : Option Checker) (a : AcceptingNet) (e : ReductionError) (s : Reduction) :
    Prop :=
  (e = .net (.fault .countOverflow) ∧ ¬ a.Bounded) ∨
    ∃ check step e', checker = some check ∧ check s.net = .error e' ∧
      e = rejection step.rule e' ∧ Faithful a (s.record step)

theorem Halted.stopped {checker : Option Checker} {a : AcceptingNet} {e : ReductionError}
    {s : Reduction} (ha : a.WellFormed) (h : Halted checker { accepting := a } e s) :
    Stopped checker a e s := by
  cases h with
  | overflow h hfull =>
    have hfaithful := (Faithful.start ha).of_rewrites h
    exact .inl ⟨rfl, fun hbounded =>
      AcceptingNet.not_overfull_of_bounded hfaithful.wellFormed.consistent.mirrored
        (hfaithful.bounded hbounded) hfull⟩
  | objection hchecker he h =>
    exact .inr ⟨_, _, _, hchecker, he, rfl, (Faithful.start ha).of_rewrites h⟩

/-- A reduction of a well-formed net ends in a faithful state, with a report that lists its steps, or
it is stopped early. -/
theorem ends_faithful {a : AcceptingNet} (options : ReductionOptions) (h : a.WellFormed) :
    Ends (fun report s => report.steps = s.steps ∧ Faithful a s) (Stopped options.checker a)
      (complete options { accepting := a }) := by
  have hstart : ({ accepting := a } : Reduction).net.Consistent := h.consistent
  exact (ends_complete options hstart).imp
    (fun _ _ hs => ⟨hs.1, (Faithful.start h).of_rewrites hs.2⟩) fun _ _ he => he.stopped h

end Reduction

end ProcessNet
