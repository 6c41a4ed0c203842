/-
Agglomerations in each other's way. Of two silent steps, from `p` by `u` and from `p'` by `u'`, the second one
can be agglomerated after the first one just if the two do not overlap, make no shortcut and do not lead round
in a circle; all this can be read off the output arcs of the net. Where the second one is obstructed, it may
be the same, up to ids, which of the two is done; where it is not, the steps clash.
-/
import ProcessNet.Proofs.Marking.Storable
import ProcessNet.Proofs.Reduction.Commutation

namespace ProcessNet

open AcceptingNet

namespace Net

variable {n n₁ n₂ : Net} {p p' q r : PlaceId} {t u u' : TransitionId}

/-- A transition puts tokens into both places, and both steps lead to one place: the producers of the places
overlap, and so do the post-sets of the transitions. -/
def Overlap (n : Net) (p : PlaceId) (u : TransitionId) (p' : PlaceId) (u' : TransitionId) : Prop :=
  ∃ t q, Arc.output t p ∈ n.arcs ∧ Arc.output t p' ∈ n.arcs ∧ Arc.output u q ∈ n.arcs ∧
    Arc.output u' q ∈ n.arcs

/-- The step from `p` leads to `p'` but not back, and what puts tokens into `p` puts some right to where the
step from `p'` leads. -/
def Shortcut (n : Net) (p : PlaceId) (u : TransitionId) (p' : PlaceId) (u' : TransitionId) : Prop :=
  Arc.output u p' ∈ n.arcs ∧ Arc.output u' p ∉ n.arcs ∧
    ∃ t q, Arc.output t p ∈ n.arcs ∧ Arc.output u' q ∈ n.arcs ∧ Arc.output t q ∈ n.arcs

/-- The step from `p` leads to `p'`, and the one from `p'` leads back. -/
def Circle (n : Net) (p : PlaceId) (u : TransitionId) (p' : PlaceId) (u' : TransitionId) : Prop :=
  Arc.output u p' ∈ n.arcs ∧ Arc.output u' p ∈ n.arcs

/-- If the step from `p` by `u` is agglomerated, the one from `p'` by `u'` cannot be any more, and the
other way round. -/
inductive Obstructed (n : Net) (p : PlaceId) (u : TransitionId) (p' : PlaceId) (u' : TransitionId) : Prop
  | overlap (h : n.Overlap p u p' u')
  | shortcut (h : n.Shortcut p u p' u')
  | shortcutBack (h : n.Shortcut p' u' p u)
  | circle (h : n.Circle p u p' u')

theorem Obstructed.symm (h : n.Obstructed p u p' u') : n.Obstructed p' u' p u := by
  cases h with
  | overlap h =>
    obtain ⟨t, q, htp, htp', huq, hu'q⟩ := h
    exact .overlap ⟨t, q, htp', htp, hu'q, huq⟩
  | shortcut h => exact .shortcutBack h
  | shortcutBack h => exact .shortcut h
  | circle h => exact .circle (And.symm h)

theorem Agglomerable.sameGuards (h : n.Agglomerable p u) (hq : Arc.output u q ∈ n.arcs) :
    n.SameGuards q p := by
  rintro t k (rfl | rfl)
  · exact (h.guards t q hq).1
  · exact (h.guards t q hq).2

theorem Agglomerable.transition_ne (h : n.Agglomerable p u) (ht : Arc.output t p ∈ n.arcs) : t ≠ u :=
  fun he => h.noLoop (he ▸ ht)

theorem Agglomerable.place_ne (h : n.Agglomerable p u) (hq : Arc.output u q ∈ n.arcs) : q ≠ p :=
  fun he => h.noLoop (he ▸ hq)

/-! ## What an agglomeration leaves of another one -/

namespace Fused

theorem soleInput_of_apart (h : n.Fused p u n₁) (hne : p' ≠ p ∧ u' ≠ u) (hsole : n.SoleInput p' u') :
    n₁.SoleInput p' u' := by
  intro q k hk
  rw [h.mem_of_ne_output hk hne.2, hsole q k hk, and_iff_left_of_imp]
  rintro ⟨rfl, _⟩
  exact hne.1

theorem soleConsumer_of_apart (h : n.Fused p u n₁) (hne : p' ≠ p ∧ u' ≠ u)
    (hconsumer : n.SoleConsumer p' u') : n₁.SoleConsumer p' u' := by
  intro t
  by_cases ht : t = u
  · subst ht
    exact iff_of_false (fun ha => h.transition_ne ha rfl) hne.2.symm
  · exact (h.mem_of_ne_output (by decide) ht).trans ((and_iff_left hne.1).trans (hconsumer t))

/-- Guards of places other than `p` are left as they were. -/
theorem sameGuards_of_ne (h : n.Fused p u n₁) (hq : q ≠ p) (hr : r ≠ p) (hsame : n.SameGuards q r) :
    n₁.SameGuards q r := by
  intro t k hk
  by_cases ht : t = u
  · subst ht
    exact iff_of_false (fun ha => h.transition_ne ha rfl) fun ha => h.transition_ne ha rfl
  · rw [h.mem_of_ne_output (ne_output_of_guard hk) ht, h.mem_of_ne_output (ne_output_of_guard hk) ht,
      and_iff_left hq, and_iff_left hr]
    exact hsame t k hk

/-- The places that `u'` serves have the guards of `p'` still, those that it has taken over from `u`
among them. -/
theorem sameGuards_of_served (h : n.Fused p u n₁) (hne : p' ≠ p ∧ u' ≠ u)
    (k : n.Agglomerable p' u') (hq : Arc.output u' q ∈ n₁.arcs) : n₁.SameGuards q p' := by
  refine h.sameGuards_of_ne (h.place_ne hq) hne.1 ?_
  rcases (h.mem_output hne.2).1 hq with ⟨hq, _⟩ | ⟨hback, hq⟩
  · exact k.sameGuards hq
  · exact fun t κ hκ => (h.sameGuards hq t κ hκ).trans (k.sameGuards hback t κ hκ)

/-- Without a circle `u'` gets no loop at `p'`. -/
theorem noLoop_of_not_circle (h : n.Fused p u n₁) (hne : p' ≠ p ∧ u' ≠ u)
    (k : n.Agglomerable p' u') (hcircle : ¬ n.Circle p u p' u') : Arc.output u' p' ∉ n₁.arcs := by
  rw [h.mem_output hne.2]
  rintro (⟨hout, _⟩ | ⟨hback, hout⟩)
  · exact k.noLoop hout
  · exact hcircle ⟨hout, hback⟩

/-- Nothing puts tokens both into `p'` and where `u'` leads, unless the two steps were in each other's
way before. -/
theorem apart_of_not_obstructed (h : n.Fused p u n₁) (hne : p' ≠ p ∧ u' ≠ u) (k : n.Agglomerable p' u')
    (hfree : ¬ n.Obstructed p u p' u') (hin : Arc.output t p' ∈ n₁.arcs)
    (hout : Arc.output u' q ∈ n₁.arcs) : Arc.output t q ∉ n₁.arcs := by
  have ht : t ≠ u := h.transition_ne hin
  have hcircle : ¬ n.Circle p u p' u' := fun hc => hfree (.circle hc)
  rw [h.mem_output ht] at hin ⊢
  rw [h.mem_output hne.2] at hout
  -- each of the three arcs was there before or goes through `p`
  rintro (⟨htq, hqp⟩ | ⟨htp, huq⟩)
  · rcases hin with ⟨htp', _⟩ | ⟨htp, hup'⟩
    · rcases hout with ⟨hu'q, _⟩ | ⟨hu'p, huq⟩
      · exact k.apart t q htp' hu'q htq
      · exact hfree (.shortcutBack ⟨hu'p, fun hup' => hcircle ⟨hup', hu'p⟩, t, q, htp', huq, htq⟩)
    · rcases hout with ⟨hu'q, _⟩ | ⟨hu'p, _⟩
      · exact hfree (.shortcut ⟨hup', fun hu'p => hcircle ⟨hup', hu'p⟩, t, q, htp, hu'q, htq⟩)
      · exact hcircle ⟨hup', hu'p⟩
  · rcases hin with ⟨htp', _⟩ | ⟨_, hup'⟩
    · rcases hout with ⟨hu'q, _⟩ | ⟨hu'p, _⟩
      · exact hfree (.overlap ⟨t, q, htp, htp', huq, hu'q⟩)
      · exact k.apart t p htp' hu'p htp
    · rcases hout with ⟨hu'q, _⟩ | ⟨hu'p, _⟩
      · exact k.apart u q hup' hu'q huq
      · exact hcircle ⟨hup', hu'p⟩

/-- A step from `p'` by `u'` that can still be agglomerated was not obstructed, since what obstructs it would
give it a loop or a transition that puts tokens both into `p'` and where `u'` leads. -/
theorem not_obstructed_of_agglomerable (h : n.Fused p u n₁) (hne : p' ≠ p ∧ u' ≠ u)
    (k₁ : n₁.Agglomerable p' u') : ¬ n.Obstructed p u p' u' := by
  have hserve {q} := h.mem_output (q := q) hne.2
  rintro (⟨t, q, htp, htp', huq, hu'q⟩ | ⟨hup', hu'p, t, q, htp, hu'q, htq⟩ |
    ⟨hu'p, hup', t, q, htp', huq, htq⟩ | ⟨hup', hu'p⟩)
  · have ht {q} := h.mem_output (q := q) (h.toAgglomerable.transition_ne htp)
    exact k₁.apart t q (ht.2 (.inl ⟨htp', hne.1⟩))
      (hserve.2 (.inl ⟨hu'q, h.toAgglomerable.place_ne huq⟩)) (ht.2 (.inr ⟨htp, huq⟩))
  · have ht {q} := h.mem_output (q := q) (h.toAgglomerable.transition_ne htp)
    have hqp : q ≠ p := fun he => hu'p (he ▸ hu'q)
    exact k₁.apart t q (ht.2 (.inr ⟨htp, hup'⟩)) (hserve.2 (.inl ⟨hu'q, hqp⟩))
      (ht.2 (.inl ⟨htq, hqp⟩))
  · have htu : t ≠ u := fun he => hup' (he ▸ htp')
    have ht {q} := h.mem_output (q := q) htu
    exact k₁.apart t q (ht.2 (.inl ⟨htp', hne.1⟩)) (hserve.2 (.inr ⟨hu'p, huq⟩))
      (ht.2 (.inl ⟨htq, h.toAgglomerable.place_ne huq⟩))
  · exact k₁.noLoop (hserve.2 (.inr ⟨hu'p, hup'⟩))

/-- What is agglomerable elsewhere is so after `p` and `u` were fused just if the two steps are not
obstructed. -/
theorem agglomerable_iff (h : n.Fused p u n₁) (hne : p' ≠ p ∧ u' ≠ u) (k : n.Agglomerable p' u') :
    n₁.Agglomerable p' u' ↔ ¬ n.Obstructed p u p' u' := by
  refine ⟨h.not_obstructed_of_agglomerable hne, fun hfree => ?_⟩
  exact {
    silent := h.isSilent_iff.2 ⟨hne.2, k.silent⟩
    input := (h.mem_of_ne_output (by decide) hne.2).2 ⟨k.input, hne.1⟩
    sole := fun q κ hκ hq => k.sole q κ hκ ((h.mem_of_ne_output hκ hne.2).1 hq).1
    consumer := fun t ht =>
      k.consumer t ((h.mem_of_ne_output (by decide) (h.transition_ne ht)).1 ht).1
    noLoop := h.noLoop_of_not_circle hne k fun hc => hfree (.circle hc)
    apart := fun t q => h.apart_of_not_obstructed hne k hfree
    guards := fun t q hq => ⟨h.sameGuards_of_served hne k hq t _ (.inl rfl),
      h.sameGuards_of_served hne k hq t _ (.inr rfl)⟩ }

end Fused

end Net

namespace AcceptingNet

variable {a a₁ a₂ : AcceptingNet} {p p' q q' : PlaceId} {t t' u u' : TransitionId}

/-! ## Steps that can be exchanged -/

/-- After either step the other place gets tokens from the same transitions, the other transition leads
to the same places, all else is linked alike, and the tokens are alike: what is left differs by the
exchange of `p` with `p'` and of `u` with `u'`. -/
structure Interchangeable (a : AcceptingNet) (p : PlaceId) (u : TransitionId) (p' : PlaceId)
    (u' : TransitionId) : Prop where
  producers : ∀ t, t ≠ u → t ≠ u' →
    ((Arc.output t p' ∈ a.net.arcs ∨ Arc.output t p ∈ a.net.arcs ∧ Arc.output u p' ∈ a.net.arcs) ↔
      (Arc.output t p ∈ a.net.arcs ∨ Arc.output t p' ∈ a.net.arcs ∧ Arc.output u' p ∈ a.net.arcs))
  outputs : ∀ q, q ≠ p → q ≠ p' →
    ((Arc.output u' q ∈ a.net.arcs ∨ Arc.output u' p ∈ a.net.arcs ∧ Arc.output u q ∈ a.net.arcs) ↔
      (Arc.output u q ∈ a.net.arcs ∨ Arc.output u p' ∈ a.net.arcs ∧ Arc.output u' q ∈ a.net.arcs))
  ways : ∀ t q, t ≠ u → t ≠ u' → q ≠ p → q ≠ p' →
    ((Arc.output t p ∈ a.net.arcs ∧ Arc.output u q ∈ a.net.arcs) ↔
      (Arc.output t p' ∈ a.net.arcs ∧ Arc.output u' q ∈ a.net.arcs))
  guards : a.net.SameGuards p p'
  gathered : (a.initial.tokens p' + if Arc.output u p' ∈ a.net.arcs then a.initial.tokens p else 0) =
    a.initial.tokens p + if Arc.output u' p ∈ a.net.arcs then a.initial.tokens p' else 0
  moved : ∀ q, q ≠ p → q ≠ p' →
    (if Arc.output u q ∈ a.net.arcs then a.initial.tokens p else 0) =
      if Arc.output u' q ∈ a.net.arcs then a.initial.tokens p' else 0

namespace Interchangeable

theorem symm (h : a.Interchangeable p u p' u') : a.Interchangeable p' u' p u where
  producers t htu' htu := (h.producers t htu htu').symm
  outputs q hqp' hqp := (h.outputs q hqp hqp').symm
  ways t q htu' htu hqp' hqp := (h.ways t q htu htu' hqp hqp').symm
  guards t k hk := (h.guards t k hk).symm
  gathered := h.gathered.symm
  moved q hqp' hqp := (h.moved q hqp hqp').symm

/-- If a count can tell the tokens of the step from `p` together, a count can for the one from `p'`. -/
theorem roomy (h : a.Interchangeable p u p' u') (k : a.net.Agglomerable p' u')
    (hstore : a.initial.Storable) (hroom : a.Roomy p u) : a.Roomy p' u' := by
  intro q hq hp'
  have hqp' : q ≠ p' := k.place_ne hq
  by_cases hqp : q = p
  · subst hqp
    have hgathered := h.gathered
    have hsum := hroom p'
    have hone := hstore p'
    rw [if_pos hq] at hgathered
    by_cases hup' : Arc.output u p' ∈ a.net.arcs
    · have hsum := hsum hup'
      omega
    · rw [if_neg hup'] at hgathered
      omega
  · have hmoved := h.moved q hqp hqp'
    rw [if_pos hq] at hmoved
    by_cases huq : Arc.output u q ∈ a.net.arcs
    · rw [if_pos huq] at hmoved
      rw [← hmoved] at hp' ⊢
      exact hroom q huq hp'
    · rw [if_neg huq] at hmoved
      omega

end Interchangeable

/-- Arcs that put no tokens into a place are left alike, with `p` and `p'`, `u` and `u'` swapped. -/
theorem mem_arcs_swap_of_ne_output (h₁ : FusedAt p u a a₁) (h₂ : FusedAt p' u' a a₂)
    (hne : p' ≠ p ∧ u' ≠ u) (hguards : a.net.SameGuards p p') {r : PlaceId} {v : TransitionId}
    {k : ArcKind} (hk : k ≠ .output) (hv : v ≠ u) (hr : r ≠ p) :
    Arc.mk (Equiv.swap p p' r) (Equiv.swap u u' v) k ∈ a₂.net.arcs ↔ Arc.mk r v k ∈ a₁.net.arcs := by
  rw [h₁.net.mem_of_ne_output hk hv, and_iff_left hr]
  by_cases hv' : v = u'
  · subst hv'
    rw [Equiv.swap_apply_right, h₂.net.mem_of_ne_output hk hne.2.symm]
    by_cases hr' : r = p'
    · subst hr'
      rw [Equiv.swap_apply_right, and_iff_left hne.1.symm]
      refine ⟨fun hb => ?_, fun hb => ?_⟩
      · rw [(h₁.net.sole p k hk hb).2]
        exact h₂.net.input
      · rw [(h₂.net.sole r k hk hb).2]
        exact h₁.net.input
    · rw [Equiv.swap_apply_of_ne_of_ne hr hr']
      exact iff_of_false (fun hb => hr (h₁.net.sole r k hk hb.1).1) fun hb =>
        hr' (h₂.net.sole r k hk hb).1
  · rw [Equiv.swap_apply_of_ne_of_ne hv hv', h₂.net.mem_of_ne_output hk hv']
    by_cases hr' : r = p'
    · subst hr'
      rw [Equiv.swap_apply_right, and_iff_left hne.1.symm]
      cases k with
      | input =>
        exact iff_of_false (fun hb => hv (h₁.net.consumer v hb)) fun hb => hv' (h₂.net.consumer v hb)
      | output => exact absurd rfl hk
      | reset => exact hguards v _ (.inl rfl)
      | inhibitor => exact hguards v _ (.inr rfl)
    · rw [Equiv.swap_apply_of_ne_of_ne hr hr', and_iff_left hr']

/-- So is what is put into places, if the steps can be exchanged. -/
theorem Interchangeable.mem_output_swap (h : a.Interchangeable p u p' u') (h₁ : FusedAt p u a a₁)
    (h₂ : FusedAt p' u' a a₂) (hne : p' ≠ p ∧ u' ≠ u) {r : PlaceId} {v : TransitionId} (hv : v ≠ u)
    (hr : r ≠ p) : Arc.output (Equiv.swap u u' v) (Equiv.swap p p' r) ∈ a₂.net.arcs ↔
      Arc.output v r ∈ a₁.net.arcs := by
  have hloop := h₁.net.noLoop
  have hloop' := h₂.net.noLoop
  rw [h₁.net.mem_output hv, and_iff_left hr]
  by_cases hv' : v = u'
  · subst hv'
    rw [Equiv.swap_apply_right, h₂.net.mem_output hne.2.symm]
    by_cases hr' : r = p'
    · subst hr'
      rw [Equiv.swap_apply_right, or_iff_right fun hb => hloop hb.1, or_iff_right hloop']
      exact and_comm
    · rw [Equiv.swap_apply_of_ne_of_ne hr hr', and_iff_left hr']
      exact (h.outputs r hr hr').symm
  · rw [Equiv.swap_apply_of_ne_of_ne hv hv', h₂.net.mem_output hv']
    by_cases hr' : r = p'
    · subst hr'
      rw [Equiv.swap_apply_right, and_iff_left hne.1.symm]
      exact (h.producers v hv hv').symm
    · rw [Equiv.swap_apply_of_ne_of_ne hr hr', and_iff_left hr']
      exact or_congr_right (h.ways v r hv hv' hr hr').symm

/-- Of two steps that can be exchanged the same is left, up to a swap of `p` with `p'` and of `u` with
`u'`, whichever is done. -/
theorem FusedAt.renamed_of_interchangeable (h₁ : FusedAt p u a a₁) (h₂ : FusedAt p' u' a a₂)
    (ha : a.net.Consistent) (hne : p' ≠ p ∧ u' ≠ u) (h : a.Interchangeable p u p' u')
    (hfinal : a.final.tokens p = a.final.tokens p') :
    Renamed (Equiv.swap p p') (Equiv.swap u u') a₁ a₂ := by
  have hp : a.net.hasPlace p := ha.livePlace _ h₁.net.input
  have hp' : a.net.hasPlace p' := ha.livePlace _ h₂.net.input
  obtain ⟨hu, hlabel⟩ := Net.isSilent_iff.1 h₁.net.silent
  obtain ⟨hu', hlabel'⟩ := Net.isSilent_iff.1 h₂.net.silent
  -- the swap takes what is gone in the one net to what is gone in the other one
  have hplace : ∀ r, Equiv.swap p p' r = p' ↔ r = p := fun r => by
    rw [Equiv.swap_apply_eq_iff, Equiv.swap_apply_right]
  have htransition : ∀ v, Equiv.swap u u' v = u' ↔ v = u := fun v => by
    rw [Equiv.swap_apply_eq_iff, Equiv.swap_apply_right]
  refine {
    hasPlace := fun r => ?_
    hasTransition := fun v => ?_
    label := fun v => ?_
    mem_arcs := fun r v k => ?_
    initial := fun r hr => ?_
    final := fun r _ => ?_ }
  · rw [Bool.eq_iff_iff, h₁.net.hasPlace_iff, h₂.net.hasPlace_iff,
      Equiv.apply_swap_eq_self (v := a.net.hasPlace) (hp.trans hp'.symm), ne_eq, hplace]
  · rw [Bool.eq_iff_iff, h₁.net.hasTransition_iff, h₂.net.hasTransition_iff,
      Equiv.apply_swap_eq_self (v := a.net.hasTransition) (hu.trans hu'.symm), ne_eq, htransition]
  · rw [label?_of_transition? h₁.net.transition?, label?_of_transition? h₂.net.transition?,
      Equiv.apply_swap_eq_self (v := a.net.label?) (hlabel.trans hlabel'.symm)]
    exact if_congr (htransition v) rfl rfl
  · by_cases hv : v = u
    · exact iff_of_false (fun hb => h₂.net.transition_ne hb ((htransition v).2 hv)) fun hb =>
        h₁.net.transition_ne hb hv
    by_cases hr : r = p
    · exact iff_of_false (fun hb => h₂.net.place_ne hb ((hplace r).2 hr)) fun hb =>
        h₁.net.place_ne hb hr
    by_cases hk : k = .output
    · subst hk
      exact h.mem_output_swap h₁ h₂ hne hv hr
    · exact mem_arcs_swap_of_ne_output h₁ h₂ hne h.guards hk hv hr
  · have hrp := (h₁.net.hasPlace_iff.1 hr).1
    rw [h₁.tokens hrp, h₂.tokens ((hplace r).not.2 hrp)]
    by_cases hrp' : r = p'
    · rw [hrp', Equiv.swap_apply_right]
      exact h.gathered.symm
    · rw [Equiv.swap_apply_of_ne_of_ne hrp hrp', h.moved r hrp hrp']
  · rw [h₁.final, h₂.final]
    exact Equiv.apply_swap_eq_self hfinal r

/-! ## Steps that clash -/

/-- The place holds tokens at first or gets some from another transition than `u`. -/
def FedBesides (a : AcceptingNet) (p : PlaceId) (u : TransitionId) : Prop :=
  0 < a.initial.tokens p ∨ ∃ t, t ≠ u ∧ Arc.output t p ∈ a.net.arcs

/-- The transition leads to another place than `p`. -/
def LeadsBesides (a : AcceptingNet) (u : TransitionId) (p : PlaceId) : Prop :=
  ∃ q, q ≠ p ∧ Arc.output u q ∈ a.net.arcs

/-- The places `p` and `p'` get tokens from the same transitions and hold as many, and `u` and `u'` lead
to the same places. -/
def Parallel (a : AcceptingNet) (p : PlaceId) (u : TransitionId) (p' : PlaceId) (u' : TransitionId) :
    Prop :=
  (∀ t, Arc.output t p ∈ a.net.arcs ↔ Arc.output t p' ∈ a.net.arcs) ∧
    (∀ q, Arc.output u q ∈ a.net.arcs ↔ Arc.output u' q ∈ a.net.arcs) ∧
    a.initial.tokens p = a.initial.tokens p'

/-- The step from `p` stands in the way of the one from `p'`, and it is not the same which of them is done:
the two overlap and are not parallel, or there is a shortcut and the step from `p` does more than to feed
`p'`, or there is a circle that the step from `p` leads into and out of. -/
inductive ClashInto (a : AcceptingNet) (p : PlaceId) (u : TransitionId) (p' : PlaceId)
    (u' : TransitionId) : Prop
  | overlap (h : a.net.Overlap p u p' u') (hother : ¬ a.Parallel p u p' u')
  | shortcut (h : a.net.Shortcut p u p' u') (hother : a.FedBesides p' u ∨ a.LeadsBesides u p')
  | circle (h : a.net.Circle p u p' u') (hin : a.FedBesides p u') (hout : a.LeadsBesides u p')

/-- One of the steps stands in the way of the other one, and it is not the same which of them is done. -/
def Clash (a : AcceptingNet) (p : PlaceId) (u : TransitionId) (p' : PlaceId) (u' : TransitionId) : Prop :=
  a.ClashInto p u p' u' ∨ a.ClashInto p' u' p u

theorem not_clashInto_self (h : a.net.Agglomerable p u) : ¬ a.ClashInto p u p u := by
  rintro (⟨_, hother⟩ | ⟨⟨hloop, _⟩, _⟩ | ⟨⟨hloop, _⟩, _⟩)
  · exact hother ⟨fun _ => Iff.rfl, fun _ => Iff.rfl, rfl⟩
  · exact h.noLoop hloop
  · exact h.noLoop hloop

theorem Clash.ne (h : a.Clash p u p' u') (hagg : a.net.Agglomerable p u)
    (hagg' : a.net.Agglomerable p' u') : p' ≠ p ∧ u' ≠ u := by
  have hself : ¬ (p' = p ∧ u' = u) := by
    rintro ⟨rfl, rfl⟩
    exact h.elim (not_clashInto_self hagg) (not_clashInto_self hagg)
  refine ⟨fun hp => hself ⟨hp, ?_⟩, fun hu => hself ⟨?_, hu⟩⟩
  · exact hagg.consumer u' (hp ▸ hagg'.input)
  · exact (hagg.sole p' .input (by decide) (hu ▸ hagg'.input)).1

theorem moved_eq_zero (h : 0 < a.initial.tokens p → Arc.output u q ∉ a.net.arcs) :
    (if Arc.output u q ∈ a.net.arcs then a.initial.tokens p else 0) = 0 := by
  split
  · rename_i hout
    exact Nat.eq_zero_of_not_pos fun hpos => h hpos hout
  · rfl

theorem interchangeable_of_parallel (h : a.net.Agglomerable p u) (k : a.net.Agglomerable p' u')
    (hover : a.net.Overlap p u p' u') (hsame : a.Parallel p u p' u') :
    a.Interchangeable p u p' u' := by
  obtain ⟨t, q, htp, htp', huq, hu'q⟩ := hover
  obtain ⟨hproducers, houtputs, htokens⟩ := hsame
  have hout : Arc.output u p' ∉ a.net.arcs := fun ho => h.apart t p' htp ho htp'
  have hback : Arc.output u' p ∉ a.net.arcs := fun ho => k.apart t p htp' ho htp
  exact {
    producers := fun v _ _ => by
      rw [or_iff_left fun hb => hout hb.2, or_iff_left fun hb => hback hb.2, hproducers]
    outputs := fun r _ _ => by
      rw [or_iff_left fun hb => hback hb.1, or_iff_left fun hb => hout hb.1, houtputs]
    ways := fun v r _ _ _ _ => and_congr (hproducers v) (houtputs r)
    guards := fun v κ hκ => (h.sameGuards huq v κ hκ).symm.trans (k.sameGuards hu'q v κ hκ)
    gathered := by rw [if_neg hout, if_neg hback, htokens]
    moved := fun r _ _ => if_congr (houtputs r) htokens rfl }

theorem interchangeable_of_shortcut (h : a.net.Agglomerable p u) (hcut : a.net.Shortcut p u p' u')
    (hfed : ¬ a.FedBesides p' u) (hleads : ¬ a.LeadsBesides u p') : a.Interchangeable p u p' u' := by
  obtain ⟨hout, hback, _⟩ := hcut
  obtain ⟨hempty, hproducer⟩ := not_or.1 hfed
  have hunfed : ∀ v, v ≠ u → Arc.output v p' ∉ a.net.arcs := fun v hv hb => hproducer ⟨v, hv, hb⟩
  have hsole : ∀ r, r ≠ p' → Arc.output u r ∉ a.net.arcs := fun r hr hb => hleads ⟨r, hr, hb⟩
  exact {
    producers := fun v hv _ => by
      rw [or_iff_right (hunfed v hv), or_iff_left fun hb => hunfed v hv hb.1, and_iff_left hout]
    outputs := fun r _ hr => by
      rw [or_iff_left fun hb => hback hb.1, or_iff_right (hsole r hr), and_iff_right hout]
    ways := fun v r hv _ _ hr =>
      iff_of_false (fun hb => hsole r hr hb.2) fun hb => hunfed v hv hb.1
    guards := fun v κ hκ => (h.sameGuards hout v κ hκ).symm
    gathered := by
      rw [if_pos hout, if_neg hback]
      omega
    moved := fun r _ hr => by
      rw [if_neg (hsole r hr), Nat.eq_zero_of_not_pos hempty, ite_self] }

/-- What moves on in a circle, or is moved out of it, comes from `p` or `p'` itself. -/
theorem interchangeable_of_circle (h : a.net.Agglomerable p u) (hcircle : a.net.Circle p u p' u')
    (hfree : ¬ a.Clash p u p' u') : a.Interchangeable p u p' u' := by
  obtain ⟨hout, hback⟩ := hcircle
  have hway : a.FedBesides p u' → ∀ r, r ≠ p' → Arc.output u r ∉ a.net.arcs := fun hfed r hr hb =>
    hfree (.inl (.circle ⟨hout, hback⟩ hfed ⟨r, hr, hb⟩))
  have hway' : a.FedBesides p' u → ∀ r, r ≠ p → Arc.output u' r ∉ a.net.arcs := fun hfed r hr hb =>
    hfree (.inr (.circle ⟨hback, hout⟩ hfed ⟨r, hr, hb⟩))
  exact {
    producers := fun v _ _ => by rw [and_iff_left hout, and_iff_left hback, or_comm]
    outputs := fun r _ _ => by rw [and_iff_right hout, and_iff_right hback, or_comm]
    ways := fun v r hv hv' hr hr' => iff_of_false
      (fun hb => hway (.inr ⟨v, hv', hb.1⟩) r hr' hb.2)
      fun hb => hway' (.inr ⟨v, hv, hb.1⟩) r hr hb.2
    guards := fun v κ hκ => (h.sameGuards hout v κ hκ).symm
    gathered := by rw [if_pos hout, if_pos hback, Nat.add_comm]
    moved := fun r hr hr' => by
      rw [moved_eq_zero fun hpos => hway (.inl hpos) r hr', moved_eq_zero fun hpos =>
        hway' (.inl hpos) r hr] }

/-- Steps that are `Obstructed` without a `Clash` can be exchanged. -/
theorem interchangeable_of_obstructed (h : a.net.Agglomerable p u) (k : a.net.Agglomerable p' u')
    (hobstructed : a.net.Obstructed p u p' u') (hfree : ¬ a.Clash p u p' u') :
    a.Interchangeable p u p' u' := by
  cases hobstructed with
  | overlap hover =>
    refine interchangeable_of_parallel h k hover ?_
    by_contra hother
    exact hfree (.inl (.overlap hover hother))
  | shortcut hcut =>
    obtain ⟨hfed, hleads⟩ := not_or.1 fun hother => hfree (.inl (.shortcut hcut hother))
    exact interchangeable_of_shortcut h hcut hfed hleads
  | shortcutBack hcut =>
    obtain ⟨hfed, hleads⟩ := not_or.1 fun hother => hfree (.inr (.shortcut hcut hother))
    exact (interchangeable_of_shortcut k hcut hfed hleads).symm
  | circle hcircle => exact interchangeable_of_circle h hcircle hfree

end AcceptingNet

end ProcessNet
