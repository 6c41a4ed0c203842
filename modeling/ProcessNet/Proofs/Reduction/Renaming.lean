/-
Rules do not see ids. Where a rule matches in a net, it matches at the renamed nodes of a renamed net, and
what it leaves there is what it leaves here, renamed. Each edit is told with what it does to the markings.
-/
import ProcessNet.Proofs.Net.Isomorphism
import ProcessNet.Proofs.Reduction.Edit

namespace ProcessNet

theorem Marking.Canonical.contains_eq_false_iff {m : Marking} (h : m.Canonical) {p : PlaceId} :
    m.contains p = false ↔ m.tokens p = 0 := by
  refine ⟨tokens_of_not_contains, fun hp => ?_⟩
  rw [contains, h.lookup_eq, if_pos hp]
  rfl

namespace AcceptingNet

variable {a a' b b' : AcceptingNet} {p q : PlaceId} {t u : TransitionId}

theorem WellFormed.isMarked_eq_false_iff (h : a.WellFormed) :
    a.isMarked p = false ↔ a.initial.tokens p = 0 ∧ a.final.tokens p = 0 := by
  rw [isMarked, Bool.or_eq_false_iff, h.initial.contains_eq_false_iff, h.final.contains_eq_false_iff]

/-! ## Edits -/

/-- `a'` is `a` with `p` and `u` agglomerated and the tokens of `p` where `u` would put them. -/
structure FusedAt (p : PlaceId) (u : TransitionId) (a a' : AcceptingNet) : Prop where
  net : a.net.Fused p u a'.net
  initial : a'.initial.tokens = a.net.forwarded p u a.initial.tokens
  final : a'.final.tokens = a.final.tokens

/-- `a'` is `a` without the transition `t`. -/
structure WithoutTransition (t : TransitionId) (a a' : AcceptingNet) : Prop where
  gone : a.net.TransitionGone t a'.net
  initial : a'.initial.tokens = a.initial.tokens
  final : a'.final.tokens = a.final.tokens

/-- `a'` is `a` without the place `p`. -/
structure WithoutPlace (p : PlaceId) (a a' : AcceptingNet) : Prop where
  gone : a.net.PlaceGone p a'.net
  initial : ∀ q, q ≠ p → a'.initial.tokens q = a.initial.tokens q
  final : ∀ q, q ≠ p → a'.final.tokens q = a.final.tokens q

/-- `a'` is `a` without the reset arc from `p` to `t`. -/
structure WithoutReset (p : PlaceId) (t : TransitionId) (a a' : AcceptingNet) : Prop where
  gone : a.net.ResetGone p t a'.net
  initial : a'.initial.tokens = a.initial.tokens
  final : a'.final.tokens = a.final.tokens

theorem label?_of_transition? {n n' : Net}
    (h : ∀ t, n'.transition? t = if t = u then none else n.transition? t) :
    n'.label? t = if t = u then none else n.label? t := by
  unfold Net.label?
  rw [h]
  split <;> rfl

namespace Renamed

variable {f : Equiv.Perm PlaceId} {g : Equiv.Perm TransitionId}

/-! ## What edits leave -/

/-- If edits take away a place each, and the places correspond, so do those that are left. -/
theorem hasPlace_of_gone (h : Renamed f g a b)
    (ha : ∀ q, a'.net.place? q = if q = p then none else a.net.place? q)
    (hb : ∀ q, b'.net.place? q = if q = f p then none else b.net.place? q) (q : PlaceId) :
    b'.net.hasPlace (f q) = a'.net.hasPlace q := by
  rw [Bool.eq_iff_iff, Net.hasPlace_iff_of_gone hb, Net.hasPlace_iff_of_gone ha, h.hasPlace,
    f.injective.ne_iff]

theorem hasTransition_of_gone (h : Renamed f g a b)
    (ha : ∀ v, a'.net.transition? v = if v = u then none else a.net.transition? v)
    (hb : ∀ v, b'.net.transition? v = if v = g u then none else b.net.transition? v)
    (v : TransitionId) : b'.net.hasTransition (g v) = a'.net.hasTransition v := by
  have hlive := h.hasTransition v
  unfold Net.hasTransition at hlive ⊢
  rw [ha, hb]
  by_cases hv : v = u
  · rw [if_pos hv, if_pos (congrArg g hv)]
  · rw [if_neg hv, if_neg fun he => hv (g.injective he)]
    exact hlive

theorem label_of_gone (h : Renamed f g a b)
    (ha : ∀ v, a'.net.transition? v = if v = u then none else a.net.transition? v)
    (hb : ∀ v, b'.net.transition? v = if v = g u then none else b.net.transition? v)
    (v : TransitionId) : b'.net.label? (g v) = a'.net.label? v := by
  rw [label?_of_transition? hb, label?_of_transition? ha, h.label]
  exact if_congr g.injective.eq_iff rfl rfl

theorem forwarded_eq (h : Renamed f g a b) (ha : a.net.Consistent) (hpu : a.net.Agglomerable p u)
    (hq : a.net.hasPlace q) : b.net.forwarded (f p) (g u) b.initial.tokens (f q) =
      a.net.forwarded p u a.initial.tokens q := by
  unfold Net.forwarded
  rw [h.initial q hq, h.initial p (ha.livePlace _ hpu.input)]
  exact if_congr f.injective.eq_iff rfl (congrArg _ (if_congr (h.mem_arcs q u .output) rfl rfl))

theorem fusedAt (h : Renamed f g a b) (ha : a.net.Consistent) (hfa : FusedAt p u a a')
    (hfb : FusedAt (f p) (g u) b b') : Renamed f g a' b' where
  hasPlace := h.hasPlace_of_gone hfa.net.place? hfb.net.place?
  hasTransition := h.hasTransition_of_gone hfa.net.transition? hfb.net.transition?
  label := h.label_of_gone hfa.net.transition? hfb.net.transition?
  mem_arcs q v k := by
    rw [hfa.net.mem_arcs, hfb.net.mem_arcs]
    simp only [f.injective.ne_iff, g.injective.ne_iff, h.mem_arcs]
    exact or_congr Iff.rfl (and_congr_right fun _ =>
      and_congr (h.mem_arcs p v .output) (h.mem_arcs q u .output))
  initial q hq := by
    rw [hfa.initial, hfb.initial]
    exact h.forwarded_eq ha hfa.net.toAgglomerable (hfa.net.hasPlace_iff.1 hq).2
  final q hq := by
    rw [hfa.final, hfb.final]
    exact h.final q (hfa.net.hasPlace_iff.1 hq).2

theorem withoutTransition (h : Renamed f g a b) (ha : WithoutTransition t a a')
    (hb : WithoutTransition (g t) b b') : Renamed f g a' b' where
  hasPlace q := by
    rw [Net.hasPlace, Net.hasPlace, ha.gone.place?, hb.gone.place?]
    exact h.hasPlace q
  hasTransition := h.hasTransition_of_gone ha.gone.transition? hb.gone.transition?
  label := h.label_of_gone ha.gone.transition? hb.gone.transition?
  mem_arcs q v k := by
    rw [ha.gone.mem_arcs, hb.gone.mem_arcs, h.mem_arcs, g.injective.ne_iff]
  initial q hq := by
    rw [ha.initial, hb.initial]
    rw [Net.hasPlace, ha.gone.place?] at hq
    exact h.initial q hq
  final q hq := by
    rw [ha.final, hb.final]
    rw [Net.hasPlace, ha.gone.place?] at hq
    exact h.final q hq

theorem withoutPlace (h : Renamed f g a b) (ha : WithoutPlace p a a')
    (hb : WithoutPlace (f p) b b') : Renamed f g a' b' where
  hasPlace := h.hasPlace_of_gone ha.gone.place? hb.gone.place?
  hasTransition v := by
    rw [ha.gone.hasTransition_eq, hb.gone.hasTransition_eq]
    exact h.hasTransition v
  label v := by
    rw [Net.label?, Net.label?, ha.gone.transition?, hb.gone.transition?]
    exact h.label v
  mem_arcs q v k := by
    rw [ha.gone.mem_arcs, hb.gone.mem_arcs, h.mem_arcs, f.injective.ne_iff]
  initial q hq := by
    obtain ⟨hlive, hne⟩ := ha.gone.hasPlace_iff.1 hq
    rw [ha.initial q hne, hb.initial _ (f.injective.ne hne), h.initial q hlive]
  final q hq := by
    obtain ⟨hlive, hne⟩ := ha.gone.hasPlace_iff.1 hq
    rw [ha.final q hne, hb.final _ (f.injective.ne hne), h.final q hlive]

theorem withoutReset (h : Renamed f g a b) (ha : WithoutReset p t a a')
    (hb : WithoutReset (f p) (g t) b b') : Renamed f g a' b' where
  hasPlace q := by
    rw [ha.gone.nodes.hasPlace, hb.gone.nodes.hasPlace]
    exact h.hasPlace q
  hasTransition v := by
    rw [ha.gone.nodes.hasTransition, hb.gone.nodes.hasTransition]
    exact h.hasTransition v
  label v := by
    rw [Net.label?, Net.label?, ha.gone.nodes.transition?, hb.gone.nodes.transition?]
    exact h.label v
  mem_arcs q v k := by
    rw [ha.gone.mem_arcs, hb.gone.mem_arcs, h.mem_arcs]
    refine and_congr_right fun _ => not_congr ?_
    simp only [Arc.reset, Arc.mk.injEq, f.injective.eq_iff, g.injective.eq_iff]
  initial q hq := by
    rw [ha.initial, hb.initial]
    exact h.initial q (ha.gone.nodes.hasPlace q ▸ hq)
  final q hq := by
    rw [ha.final, hb.final]
    exact h.final q (ha.gone.nodes.hasPlace q ▸ hq)

/-! ## Where rules match -/

theorem soleInput (h : Renamed f g a b) (hs : a.net.SoleInput p t) :
    b.net.SoleInput (f p) (g t) := by
  intro q k hk
  obtain ⟨q, rfl⟩ := f.surjective q
  rw [h.mem_arcs, hs q k hk, f.injective.eq_iff]

theorem soleOutput (h : Renamed f g a b) (hs : a.net.SoleOutput t q) :
    b.net.SoleOutput (g t) (f q) := by
  intro r
  obtain ⟨r, rfl⟩ := f.surjective r
  exact (h.mem_arcs r t .output).trans ((hs r).trans f.injective.eq_iff.symm)

theorem soleConsumer (h : Renamed f g a b) (hs : a.net.SoleConsumer p t) :
    b.net.SoleConsumer (f p) (g t) := by
  intro v
  obtain ⟨v, rfl⟩ := g.surjective v
  exact (h.mem_arcs p v .input).trans ((hs v).trans g.injective.eq_iff.symm)

theorem sameGuards (h : Renamed f g a b) (hs : a.net.SameGuards p q) :
    b.net.SameGuards (f p) (f q) := by
  intro v k hk
  obtain ⟨v, rfl⟩ := g.surjective v
  rw [h.mem_arcs, h.mem_arcs, hs v k hk]

theorem refilled (h : Renamed f g a b) (hs : a.net.Refilled p) : b.net.Refilled (f p) := by
  refine ⟨fun v hv => ?_, fun v k hk hv => ?_, fun v hv => ?_⟩ <;>
    obtain ⟨v, rfl⟩ := g.surjective v
  · exact hs.free v ((h.mem_arcs p v .inhibitor).1 hv)
  · exact (h.mem_arcs p v .output).2 (hs.restored v k hk ((h.mem_arcs p v k).1 hv))
  · exact (hs.used v ((h.mem_arcs p v .output).1 hv)).imp (h.mem_arcs p v .input).2
      (h.mem_arcs p v .reset).2

theorem sameArcs (h : Renamed f g a b) (hs : a.net.SameArcs t a.net u) :
    b.net.SameArcs (g t) b.net (g u) := by
  intro q k
  obtain ⟨q, rfl⟩ := f.surjective q
  rw [h.mem_arcs, h.mem_arcs, hs q k]

theorem isMarked (h : Renamed f g a b) (ha : a.WellFormed) (hb : b.WellFormed)
    (hp : a.net.hasPlace p) (hm : a.isMarked p = false) : b.isMarked (f p) = false := by
  rw [hb.isMarked_eq_false_iff, h.initial p hp, h.final p hp]
  exact ha.isMarked_eq_false_iff.1 hm

theorem notFinal (h : Renamed f g a b) (ha : a.WellFormed) (hb : b.WellFormed)
    (hp : a.net.hasPlace p) (hm : a.final.contains p = false) : b.final.contains (f p) = false := by
  rw [hb.final.contains_eq_false_iff, h.final p hp]
  exact ha.final.contains_eq_false_iff.1 hm

theorem seriesTransitionsSite (h : Renamed f g a b) (ha : a.WellFormed) (hb : b.WellFormed)
    (hs : a.SeriesTransitionsSite p t u) : b.SeriesTransitionsSite (f p) (g t) (g u) where
  live := (h.hasPlace p).trans hs.live
  unmarked := h.isMarked ha hb hs.live hs.unmarked
  producer v := by
    obtain ⟨v, rfl⟩ := g.surjective v
    exact (h.mem_arcs p v .output).trans ((hs.producer v).trans g.injective.eq_iff.symm)
  leaving v k hk := by
    obtain ⟨v, rfl⟩ := g.surjective v
    rw [h.mem_arcs, hs.leaving v k hk, g.injective.eq_iff]
  ne := g.injective.ne hs.ne
  silent := (h.isSilent u).2 hs.silent
  sole := h.soleInput hs.sole
  apart q ht hu := by
    obtain ⟨q, rfl⟩ := f.surjective q
    exact hs.apart q ((h.mem_arcs q t .output).1 ht) ((h.mem_arcs q u .output).1 hu)
  unguarded q v k hq hk hv := by
    obtain ⟨q, rfl⟩ := f.surjective q
    obtain ⟨v, rfl⟩ := g.surjective v
    exact hs.unguarded q v k ((h.mem_arcs q u .output).1 hq) hk ((h.mem_arcs q v k).1 hv)

theorem seriesPlacesSite (h : Renamed f g a b) (ha : a.WellFormed) (hb : b.WellFormed)
    (hs : a.SeriesPlacesSite t p q) : b.SeriesPlacesSite (g t) (f p) (f q) where
  silent := (h.isSilent t).2 hs.silent
  input := h.soleInput hs.input
  output := h.soleOutput hs.output
  ne := f.injective.ne hs.ne
  notFinal := h.notFinal ha hb (ha.consistent.livePlace _ ((hs.consumer t).2 rfl)) hs.notFinal
  consumer := h.soleConsumer hs.consumer
  apart v hp hq := by
    obtain ⟨v, rfl⟩ := g.surjective v
    exact hs.apart v ((h.mem_arcs p v .output).1 hp) ((h.mem_arcs q v .output).1 hq)
  guards := h.sameGuards hs.guards

theorem silentStepSite (h : Renamed f g a b) (ha : a.WellFormed) (hb : b.WellFormed)
    (hs : a.SilentStepSite t p) : b.SilentStepSite (g t) (f p) where
  silent := (h.isSilent t).2 hs.silent
  input := h.soleInput hs.input
  unmarked := h.isMarked ha hb (ha.consistent.livePlace _ ((hs.consumer t).2 rfl)) hs.unmarked
  consumer := h.soleConsumer hs.consumer
  produced := by
    obtain ⟨v, hv⟩ := hs.produced
    exact ⟨g v, (h.mem_arcs p v .output).2 hv⟩
  aimed := by
    obtain ⟨q, hq⟩ := hs.aimed
    exact ⟨f q, (h.mem_arcs q t .output).2 hq⟩
  noLoop ho := hs.noLoop ((h.mem_arcs p t .output).1 ho)
  apart v q hp hq hv := by
    obtain ⟨v, rfl⟩ := g.surjective v
    obtain ⟨q, rfl⟩ := f.surjective q
    exact hs.apart v q ((h.mem_arcs p v .output).1 hp) ((h.mem_arcs q t .output).1 hq)
      ((h.mem_arcs q v .output).1 hv)
  guards q hq := by
    obtain ⟨q, rfl⟩ := f.surjective q
    exact h.sameGuards (hs.guards q ((h.mem_arcs q t .output).1 hq))

theorem selfLoopTransitionSite (h : Renamed f g a b) (ha : a.WellFormed) (hb : b.WellFormed)
    (hs : a.SelfLoopTransitionSite t p) : b.SelfLoopTransitionSite (g t) (f p) where
  silent := (h.isSilent t).2 hs.silent
  input := h.soleInput hs.input
  output := h.soleOutput hs.output
  produced := by
    refine Nat.le_trans hs.produced (Nat.le_of_eq (length_eq_of_perm
      ((Net.nodup_transitionsAt a.net p .output).filter _)
      ((Net.nodup_transitionsAt b.net (f p) .output).filter _) g fun v => ?_).symm)
    rw [List.mem_filter, List.mem_filter, Net.mem_transitionsAt hb.consistent.mirrored,
      Net.mem_transitionsAt ha.consistent.mirrored, h.mem_arcs, decide_eq_true_iff,
      decide_eq_true_iff, g.injective.ne_iff]

theorem selfLoopPlaceSite (h : Renamed f g a b) (ha : a.WellFormed) (hb : b.WellFormed)
    (hs : a.SelfLoopPlaceSite p) : b.SelfLoopPlaceSite (f p) where
  live := (h.hasPlace p).trans hs.live
  marked := h.initial p hs.live ▸ hs.marked
  notFinal := h.notFinal ha hb hs.live hs.notFinal
  refilled := h.refilled hs.refilled

end Renamed

end AcceptingNet

end ProcessNet
