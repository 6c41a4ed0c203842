/-
What is tried again. A rule with a worklist tries an anchor again only if an application answers it as a
neighbour of what was changed. That is enough: elsewhere the arcs around an anchor that matches are those
that were there before, so it matched before. Hence every anchor that matches is always waiting on the
worklist, and when the worklist is empty none matches.
-/
import ProcessNet.Proofs.Reduction.NormalForm

namespace ProcessNet

/-! ## What a fusion leaves as it was -/

namespace Net

variable {n n' : Net} {p q : PlaceId} {t u v : TransitionId} {k : ArcKind}

theorem ne_output_of_guard (hk : k = .reset ∨ k = .inhibitor) : k ≠ .output := by
  rcases hk with rfl | rfl <;> decide

theorem SoleInput.not_guard (h : n.SoleInput p t) (hk : k = .reset ∨ k = .inhibitor) :
    Arc.mk q t k ∉ n.arcs := by
  intro hq
  have hinput := ((h q k (ne_output_of_guard hk)).1 hq).2
  rcases hk with rfl | rfl <;> cases hinput

theorem not_mem_of_not_guard (hinput : Arc.input p t ∉ n.arcs)
    (hguard : ∀ k, k = .reset ∨ k = .inhibitor → Arc.mk p t k ∉ n.arcs) (hk : k ≠ .output) :
    Arc.mk p t k ∉ n.arcs := by
  cases k with
  | input => exact hinput
  | output => exact absurd rfl hk
  | reset => exact hguard .reset (.inl rfl)
  | inhibitor => exact hguard .inhibitor (.inr rfl)

namespace Fused

/-- No arc is left at `u`. -/
theorem transition_ne (h : n.Fused p u n') {b : Arc} (hb : b ∈ n'.arcs) : b.transition ≠ u := by
  rcases (h.mem_arcs b).1 hb with ⟨_, _, hu⟩ | ⟨_, hp, _⟩
  · exact hu
  · exact fun he => h.noLoop (he ▸ hp)

theorem isSilent_iff (h : n.Fused p u n') : n'.isSilent t ↔ t ≠ u ∧ n.isSilent t := by
  unfold isSilent
  rw [h.transition?]
  by_cases ht : t = u
  · simp [ht]
  · simp [ht]

/-- An output arc is there before as it is there after, unless the transition served `p` or is `u`. -/
theorem mem_output_of_not (h : n.Fused p u n') (ht : t ≠ u) (htp : Arc.output t p ∉ n.arcs) :
    Arc.output t q ∈ n'.arcs ↔ Arc.output t q ∈ n.arcs := by
  rw [h.mem_output ht, or_iff_left fun hb => htp hb.1, and_iff_left_of_imp]
  rintro hq rfl
  exact htp hq

/-- Where nothing but `p` leads into `u`, all that leads from other places is there before as it is there
after. -/
theorem mem_iff_of_sole (h : n.Fused p u n') (hsole : n.SoleInput p u) (hk : k ≠ .output)
    (hq : q ≠ p) : Arc.mk q t k ∈ n.arcs ↔ Arc.mk q t k ∈ n'.arcs := by
  by_cases ht : t = u
  · subst ht
    exact iff_of_false (fun ha => hq ((hsole q k hk).1 ha).1) fun ha => h.transition_ne ha rfl
  · rw [h.mem_of_ne_output hk ht, and_iff_left hq]

/-- A transition that `p` does not lead into has the inputs that it had before. -/
theorem soleInput_of (h : n.Fused p u n') (ht : t ≠ u) (hsole : n'.SoleInput q t)
    (hp : ∀ k, k ≠ .output → Arc.mk p t k ∉ n.arcs) : n.SoleInput q t := by
  intro r k hk
  rw [← hsole r k hk, h.mem_of_ne_output hk ht, and_iff_left_of_imp]
  rintro hr rfl
  exact hp k hk hr

end Fused

end Net

/-! ## Matches that were there before -/

namespace AcceptingNet

variable {a b : AcceptingNet} {p q r s : PlaceId} {t u v w : TransitionId}

/-- Where `FST` matches after nodes elsewhere were fused, it matched before: their places and arcs are
the same. -/
theorem SeriesTransitionsSite.of_fused (h : a.SeriesTransitionsSite p t u)
    (hf : a.net.Fused p u b.net) (hmarked : ∀ q, b.isMarked q = a.isMarked q)
    (h' : b.SeriesTransitionsSite q v w) (hfar : ∀ k, Arc.mk q t k ∉ b.net.arcs) :
    a.SeriesTransitionsSite q v w := by
  obtain ⟨hqp, hlive⟩ := hf.hasPlace_iff.1 h'.live
  obtain ⟨hwu, hsilent⟩ := hf.isSilent_iff.1 h'.silent
  have hvq : Arc.output v q ∈ b.net.arcs := (h'.producer v).2 rfl
  have hqw : Arc.input q w ∈ b.net.arcs := (h'.leaving w .input (by decide)).2 ⟨rfl, rfl⟩
  have hvu : v ≠ u := hf.transition_ne hvq
  have hvt : v ≠ t := fun he => hfar .output (he ▸ hvq)
  have hwt : w ≠ t := fun he => hfar .input (he ▸ hqw)
  -- `u` did not reach `q`, since `t` would do so now
  have huq : Arc.output u q ∉ a.net.arcs := fun ho =>
    hfar .output ((hf.mem_output h.ne).2 (.inr ⟨(h.producer t).2 rfl, ho⟩))
  have hout : ∀ x, x ≠ t → x ≠ u → ∀ r,
      Arc.output x r ∈ b.net.arcs ↔ Arc.output x r ∈ a.net.arcs := fun x hxt hxu r =>
    hf.mem_output_of_not hxu fun ho => hxt ((h.producer x).1 ho)
  refine {
    live := hlive
    unmarked := hmarked q ▸ h'.unmarked
    producer := fun x => ?_
    leaving := fun x k hk => (hf.mem_iff_of_sole h.sole hk hqp).trans (h'.leaving x k hk)
    ne := h'.ne
    silent := hsilent
    sole := hf.soleInput_of hwu h'.sole fun k hk hp => hwu ((h.leaving w k hk).1 hp).1
    apart := fun r hv hw => h'.apart r ((hout v hvt hvu r).2 hv) ((hout w hwt hwu r).2 hw)
    unguarded := fun r x k hr hk hx => ?_ }
  · rw [← h'.producer x]
    by_cases hxu : x = u
    · exact iff_of_false (hxu ▸ huq) fun ho => hf.transition_ne ho hxu
    · by_cases hxt : x = t
      · subst hxt
        exact iff_of_false (fun ho => hfar .output ((hf.mem_output hxu).2 (.inl ⟨ho, hqp⟩)))
          (hfar .output)
      · exact (hout x hxt hxu q).symm
  · have hk' := Net.ne_output_of_guard hk
    have hxu : x ≠ u := by
      rintro rfl
      exact h.sole.not_guard hk hx
    have hrp : r ≠ p := by
      rintro rfl
      exact hxu ((h.leaving x k hk').1 hx).1
    exact h'.unguarded r x k ((hout w hwt hwu r).2 hr) hk ((hf.mem_iff_of_sole h.sole hk' hrp).1 hx)

/-- Where `FSP` matches after nodes elsewhere were fused, it matched before. -/
theorem SeriesPlacesSite.of_fused (h : a.SeriesPlacesSite t p q) (hf : a.net.Fused p t b.net)
    (hfinal : b.final = a.final) (h' : b.SeriesPlacesSite u r s)
    (hfar : ∀ k, Arc.mk q u k ∉ b.net.arcs) : a.SeriesPlacesSite u r s := by
  obtain ⟨hut, hsilent⟩ := hf.isSilent_iff.1 h'.silent
  have htq : Arc.output t q ∈ a.net.arcs := (h.output q).2 rfl
  have hru : Arc.input r u ∈ b.net.arcs := (h'.consumer u).2 rfl
  have hus : Arc.output u s ∈ b.net.arcs := (h'.output s).2 rfl
  have hrp : r ≠ p := hf.place_ne hru
  have hsp : s ≠ p := hf.place_ne hus
  have hrq : r ≠ q := fun he => hfar .input (he ▸ hru)
  -- `u` did not serve `p`, since it would serve `q` now
  have hup : Arc.output u p ∉ a.net.arcs := fun ho =>
    hfar .output ((hf.mem_output hut).2 (.inr ⟨ho, htq⟩))
  have hkeep : ∀ x v k, k ≠ .output → x ≠ p →
      (Arc.mk x v k ∈ a.net.arcs ↔ Arc.mk x v k ∈ b.net.arcs) := fun x v k hk hx =>
    hf.mem_iff_of_sole h.input hk hx
  -- nor did `p` lead into `u`, since a guard of `p` is one of `q`
  have hpu : ∀ k, k ≠ .output → Arc.mk p u k ∉ a.net.arcs := fun k =>
    Net.not_mem_of_not_guard (fun hx => hut ((h.consumer u).1 hx)) fun k hg hx =>
      hfar k ((hkeep q u k (Net.ne_output_of_guard hg) h.ne.symm).1 ((h.guards u k hg).1 hx))
  refine {
    silent := hsilent
    input := hf.soleInput_of hut h'.input hpu
    output := fun x => (hf.mem_output_of_not hut hup).symm.trans (h'.output x)
    ne := h'.ne
    notFinal := hfinal ▸ h'.notFinal
    consumer := fun v => (hkeep r v .input (by decide) hrp).trans (h'.consumer v)
    apart := fun v hr hs => ?_
    guards := fun v k hk => ?_ }
  · have hvt : v ≠ t := by
      rintro rfl
      exact hrq ((h.output r).1 hr)
    exact h'.apart v ((hf.mem_output hvt).2 (.inl ⟨hr, hrp⟩)) ((hf.mem_output hvt).2 (.inl ⟨hs, hsp⟩))
  · have hk' := Net.ne_output_of_guard hk
    rw [hkeep r v k hk' hrp, hkeep s v k hk' hsp]
    exact h'.guards v k hk

/-- Where `A` matches after nodes elsewhere were fused, it matched before. -/
theorem SilentStepSite.of_fused (h : a.SilentStepSite t s) (hf : a.net.Fused s t b.net)
    (hmarked : ∀ q, b.isMarked q = a.isMarked q) (h' : b.SilentStepSite u r)
    (hfar : ∀ q, Arc.output t q ∈ a.net.arcs → Arc.input q u ∉ b.net.arcs) :
    a.SilentStepSite u r := by
  obtain ⟨hut, hsilent⟩ := hf.isSilent_iff.1 h'.silent
  obtain ⟨q₀, hq₀⟩ := h.aimed
  have hq₀s : q₀ ≠ s := fun he => h.noLoop (he ▸ hq₀)
  have hru : Arc.input r u ∈ b.net.arcs := (h'.consumer u).2 rfl
  have hrs : r ≠ s := hf.place_ne hru
  have htr : Arc.output t r ∉ a.net.arcs := fun ho => hfar r ho hru
  have hproducer : ∀ v, Arc.output v r ∈ b.net.arcs ↔ Arc.output v r ∈ a.net.arcs := by
    intro v
    by_cases hvt : v = t
    · exact iff_of_false (fun ho => hf.transition_ne ho hvt) (hvt ▸ htr)
    · rw [hf.mem_output hvt, or_iff_left fun hb => htr hb.2, and_iff_left hrs]
  -- who served the place of the step serves its targets now
  have hserve : ∀ v, v ≠ t → Arc.output v s ∈ a.net.arcs → Arc.output v q₀ ∈ b.net.arcs :=
    fun v hvt ho => (hf.mem_output hvt).2 (.inr ⟨ho, hq₀⟩)
  have hstay : ∀ v x, v ≠ t → x ≠ s → Arc.output v x ∈ a.net.arcs → Arc.output v x ∈ b.net.arcs :=
    fun v x hvt hxs ho => (hf.mem_output hvt).2 (.inl ⟨ho, hxs⟩)
  have hkeep : ∀ x v k, k ≠ .output → x ≠ s →
      (Arc.mk x v k ∈ a.net.arcs ↔ Arc.mk x v k ∈ b.net.arcs) := fun x v k hk hx =>
    hf.mem_iff_of_sole h.input hk hx
  -- a guard of the place of the step is one of its targets
  have hsu : ∀ k, k ≠ .output → Arc.mk s u k ∉ a.net.arcs := fun k =>
    Net.not_mem_of_not_guard (fun hx => hut ((h.consumer u).1 hx)) fun k hg hx =>
      h'.input.not_guard hg
        ((hkeep q₀ u k (Net.ne_output_of_guard hg) hq₀s).1 ((h.guards q₀ hq₀ u k hg).2 hx))
  refine {
    silent := hsilent
    input := hf.soleInput_of hut h'.input hsu
    unmarked := hmarked r ▸ h'.unmarked
    consumer := fun v => (hkeep r v .input (by decide) hrs).trans (h'.consumer v)
    produced := h'.produced.imp fun v => (hproducer v).1
    aimed := ?_
    noLoop := fun ho => h'.noLoop ((hproducer u).2 ho)
    apart := fun v x hv hx hvx => ?_
    guards := fun x hx v k hk => ?_ }
  · obtain ⟨x, hx⟩ := h'.aimed
    rcases (hf.mem_output hut).1 hx with ⟨hx, _⟩ | ⟨hus, _⟩
    · exact ⟨x, hx⟩
    · exact ⟨s, hus⟩
  · have hvt : v ≠ t := fun he => htr (he ▸ hv)
    have hv' := (hproducer v).2 hv
    by_cases hxs : x = s
    · subst hxs
      exact h'.apart v q₀ hv' (hserve u hut hx) (hserve v hvt hvx)
    · exact h'.apart v x hv' (hstay u x hut hxs hx) (hstay v x hvt hxs hvx)
  · have hk' := Net.ne_output_of_guard hk
    rw [hkeep r v k hk' hrs]
    by_cases hxs : x = s
    · subst hxs
      rw [← h.guards q₀ hq₀ v k hk, hkeep q₀ v k hk' hq₀s]
      exact h'.guards q₀ (hserve u hut hx) v k hk
    · rw [hkeep x v k hk' hxs]
      exact h'.guards x (hstay u x hut hxs hx) v k hk

/-- Where `ELT` matches it matched before, since the place had all its producers. -/
theorem SelfLoopTransitionSite.of_gone (ha : a.net.incidence.Mirrored)
    (hgone : a.net.TransitionGone t b.net) (h' : b.SelfLoopTransitionSite u p) :
    u ≠ t ∧ a.SelfLoopTransitionSite u p := by
  have hsilent := h'.silent
  rw [Net.isSilent, hgone.transition?] at hsilent
  have hut : u ≠ t := by
    rintro rfl
    rw [if_pos rfl] at hsilent
    cases hsilent
  rw [if_neg hut] at hsilent
  have hsame : ∀ q k, Arc.mk q u k ∈ a.net.arcs ↔ Arc.mk q u k ∈ b.net.arcs := fun q k =>
    ((hgone.mem_arcs ⟨q, u, k⟩).trans (and_iff_left hut)).symm
  refine ⟨hut, hsilent, fun q k hk => (hsame q k).trans (h'.input q k hk),
    fun q => (hsame q .output).trans (h'.output q), Nat.le_trans h'.produced ?_⟩
  have hnodup := (Net.nodup_transitionsAt b.net p .output).filter (· ≠ u)
  refine (hnodup.subperm fun v hv => ?_).length_le
  obtain ⟨hv, hvu⟩ := List.mem_filter.1 hv
  rw [Net.mem_transitionsAt hgone.consistent.mirrored] at hv
  exact List.mem_filter.2 ⟨(Net.mem_producers ha).2 ((hgone.mem_arcs _).1 hv).1, hvu⟩

/-- Where `ELP` matches it matched before. -/
theorem SelfLoopPlaceSite.of_gone (hgone : a.net.PlaceGone p b.net)
    (hinitial : b.initial = (a.initial.take p).2) (hfinal : b.final = a.final)
    (h' : b.SelfLoopPlaceSite q) : q ≠ p ∧ a.SelfLoopPlaceSite q := by
  have hlive := h'.live
  rw [Net.hasPlace, hgone.place?] at hlive
  have hqp : q ≠ p := by
    rintro rfl
    rw [if_pos rfl] at hlive
    cases hlive
  rw [if_neg hqp] at hlive
  have hmarked := h'.marked
  rw [hinitial, Marking.tokens_take_of_ne hqp] at hmarked
  have hsame : ∀ t k, Arc.mk q t k ∈ b.net.arcs ↔ Arc.mk q t k ∈ a.net.arcs := fun t k =>
    (hgone.mem_arcs ⟨q, t, k⟩).trans (and_iff_left hqp)
  exact ⟨hqp, hlive, hmarked, hfinal ▸ h'.notFinal,
    fun t hi => h'.refilled.free t ((hsame t .inhibitor).2 hi),
    fun t k hk ht => (hsame t .output).1 (h'.refilled.restored t k hk ((hsame t k).2 ht)),
    fun t ho => (h'.refilled.used t ((hsame t .output).2 ho)).imp (hsame t .input).1
      (hsame t .reset).1⟩

end AcceptingNet

namespace Reduction

open AcceptingNet

variable {checker : Option Checker} {s s' : Reduction}

/-! ## Worklists -/

/-- Where the rule matches after `apply`, it is tried again: either it matched there before, or `apply`
has answered the anchor as a neighbour. -/
def LocalRule.Requeues {ι : Type} (rule : LocalRule ι) : Prop :=
  ∀ s i m l s', s.net.Consistent → rule.match? s.accepting i = some m → rule.apply i m s = .ok l s' →
    s'.net.Consistent ∧ ∀ j, rule.match? s'.accepting j ≠ none →
      j ∈ l ∨ (j ≠ i ∧ rule.match? s.accepting j ≠ none)

/-- If all anchors that match are waiting, none is left when `drain` has emptied the worklist. -/
theorem LocalRule.Requeues.drain {ι : Type} [DecidableEq ι] {rule : LocalRule ι}
    (h : rule.Requeues) (queue : List ι) (applied : Nat) (s : Reduction) (hs : s.net.Consistent)
    (hqueue : ∀ j, rule.match? s.accepting j ≠ none → j ∈ queue) :
    Ends (fun _ s' => ∀ j, rule.match? s'.accepting j = none) (fun _ _ => True)
      (drain rule checker queue applied s) := by
  induction queue, applied, s using drain_induction rule checker with
  | nil applied s =>
    rw [drain_nil]
    exact fun j => not_not.1 fun hj => List.not_mem_nil (hqueue j hj)
  | idle applied s i queue hm ih =>
    rw [drain_cons_of_none hm]
    refine ih hs fun j hj => (List.mem_cons.1 (hqueue j hj)).resolve_left ?_
    rintro rfl
    exact hj hm
  | error applied s i queue m hm e s₁ hp =>
    rw [drain_cons_of_error hm hp]
    trivial
  | ok applied s i queue m hm neighbours s₁ hp ih =>
    rw [drain_cons_of_ok hm hp]
    obtain ⟨s₂, happly, rfl⟩ := LocalRule.perform_eq_ok hp
    obtain ⟨hcons, hmatches⟩ := h s i m neighbours s₂ hs hm happly
    refine ih hcons fun j hj => mem_enqueue.2 ?_
    rcases hmatches j hj with hl | ⟨hne, hbefore⟩
    · exact .inr hl
    · exact .inl ((List.mem_cons.1 (hqueue j hbefore)).resolve_left hne)

theorem LocalRule.Requeues.run {ι : Type} [DecidableEq ι] {rule : LocalRule ι} (h : rule.Requeues)
    {anchors : List ι} (hs : s.net.Consistent)
    (hanchors : ∀ j, rule.match? s.accepting j ≠ none → j ∈ anchors) :
    Ends (fun _ s' => ∀ j, rule.match? s'.accepting j = none) (fun _ _ => True)
      (run rule checker anchors s) :=
  h.drain _ 0 s hs fun j hj => mem_enqueue.2 (.inr (hanchors j hj))

/-! ## What the applications answer -/

theorem answer_fuseSeriesTransitions {p : PlaceId} {m : SeriesTransitions} {l : List PlaceId}
    (h : fuseSeriesTransitions p m s = .ok l s') :
    l = (s'.net.transitionArcs m.first).map (·.1) := by
  unfold fuseSeriesTransitions at h
  rw [get_bind] at h
  obtain ⟨_, _, _, h⟩ := bind_eq_ok.1 h
  obtain ⟨_, _, _, h⟩ := bind_eq_ok.1 h
  obtain ⟨_, _, _, h⟩ := bind_eq_ok.1 h
  cases h
  rfl

theorem answer_fuseSeriesPlaces {t : TransitionId} {m : SeriesPlaces} {l : List TransitionId}
    (h : fuseSeriesPlaces t m s = .ok l s') : l = (s'.net.placeArcs m.second).map (·.1) := by
  unfold fuseSeriesPlaces at h
  rw [get_bind] at h
  obtain ⟨_, _, _, h⟩ := bind_eq_ok.1 h
  obtain ⟨_, _, _, h⟩ := bind_eq_ok.1 h
  obtain ⟨_, _, _, h⟩ := bind_eq_ok.1 h
  obtain ⟨k, _, _, h⟩ := bind_eq_ok.1 h
  split at h
  · obtain ⟨_, _, _, h⟩ := bind_eq_ok.1 h
    cases h
    rfl
  · cases h
    rfl

theorem answer_skipSilentStep {t : TransitionId} {m : SilentStep} {l : List TransitionId}
    (h : skipSilentStep t m s = .ok l s') : l = m.targets.flatMap s'.net.consumers := by
  unfold skipSilentStep at h
  obtain ⟨_, _, _, h⟩ := bind_eq_ok.1 h
  obtain ⟨_, _, _, h⟩ := bind_eq_ok.1 h
  obtain ⟨_, _, _, h⟩ := bind_eq_ok.1 h
  cases h
  rfl

theorem seriesTransitions_requeues : seriesTransitions.Requeues := by
  intro s p m l s' hs hm happly
  have hsite := (seriesTransitionsAt?_eq_some_iff hs.mirrored).1 hm
  obtain ⟨_, n, hok, hf⟩ := exists_fuseSeriesTransitions hs hm
  obtain rfl := answer_fuseSeriesTransitions happly
  change fuseSeriesTransitions p m s = _ at happly
  cases hok.symm.trans happly
  refine ⟨hf.consistent, fun q hq => ?_⟩
  obtain ⟨m', hm'⟩ := Option.ne_none_iff_exists'.1 hq
  have hsite' := (seriesTransitionsAt?_eq_some_iff (a := (s.withNet n).accepting)
    hf.consistent.mirrored).1 hm'
  by_cases hnear : ∃ k, Arc.mk q m.first k ∈ n.arcs
  · obtain ⟨k, hk⟩ := hnear
    exact .inl (List.mem_map.2 ⟨(q, k), (Net.mem_transitionArcs hf.consistent.mirrored).2 hk, rfl⟩)
  · refine .inr ⟨(hf.hasPlace_iff.1 hsite'.live).1, ?_⟩
    have hbefore := hsite.of_fused (b := (s.withNet n).accepting) hf (fun _ => rfl) hsite'
      (not_exists.1 hnear)
    exact Option.ne_none_iff_exists'.2 ⟨m', (seriesTransitionsAt?_eq_some_iff hs.mirrored).2 hbefore⟩

theorem seriesPlaces_requeues : seriesPlaces.Requeues := by
  intro s t m l s' hs hm happly
  have hsite := (seriesPlacesAt?_eq_some_iff hs.mirrored).1 hm
  change fuseSeriesPlaces t m s = _ at happly
  have hends := ends_fuseSeriesPlaces hs hm
  rw [happly] at hends
  obtain ⟨n, initial, hf, _, rfl⟩ := hends
  obtain rfl := answer_fuseSeriesPlaces happly
  refine ⟨hf.consistent, fun u hu => ?_⟩
  obtain ⟨m', hm'⟩ := Option.ne_none_iff_exists'.1 hu
  have hsite' := (seriesPlacesAt?_eq_some_iff hf.consistent.mirrored).1 hm'
  by_cases hnear : ∃ k, Arc.mk m.second u k ∈ n.arcs
  · obtain ⟨k, hk⟩ := hnear
    exact .inl (List.mem_map.2 ⟨(u, k), hf.consistent.mirrored.mem_placeArcs.2 hk, rfl⟩)
  · refine .inr ⟨(hf.isSilent_iff.1 hsite'.silent).1, ?_⟩
    have hbefore := hsite.of_fused (b := ⟨n, initial, s.accepting.final⟩) hf rfl hsite'
      (not_exists.1 hnear)
    exact Option.ne_none_iff_exists'.2 ⟨m', (seriesPlacesAt?_eq_some_iff hs.mirrored).2 hbefore⟩

theorem selfLoopTransitions_requeues : selfLoopTransitions.Requeues := by
  intro s t p l s' hs hm happly
  obtain ⟨_, n, hok, hgone⟩ := exists_removeSelfLoopTransition hs hm
  change removeSelfLoopTransition t p s = _ at happly
  cases hok.symm.trans happly
  refine ⟨hgone.consistent, fun u hu => .inr ?_⟩
  obtain ⟨q, hq⟩ := Option.ne_none_iff_exists'.1 hu
  obtain ⟨hne, hsite⟩ := SelfLoopTransitionSite.of_gone (b := (s.withNet n).accepting) hs.mirrored
    hgone ((selfLoopTransitionAt?_eq_some_iff hgone.consistent.mirrored).1 hq)
  exact ⟨hne, Option.ne_none_iff_exists'.2 ⟨q, (selfLoopTransitionAt?_eq_some_iff hs.mirrored).2 hsite⟩⟩

theorem selfLoopPlaces_match?_ne_none {a : AcceptingNet} {p : PlaceId} :
    selfLoopPlaces.match? a p ≠ none ↔ a.isSelfLoopPlace p := by
  unfold selfLoopPlaces
  by_cases hp : a.isSelfLoopPlace p <;> simp [hp]

theorem selfLoopPlaces_requeues : selfLoopPlaces.Requeues := by
  intro s p m l s' hs hm happly
  have hmatch := selfLoopPlaces_match?_ne_none.1 (Option.ne_none_iff_exists'.2 ⟨m, hm⟩)
  obtain ⟨n, hok, hgone⟩ := exists_removeSelfLoopPlace hs hmatch
  change removeSelfLoopPlace p s = _ at happly
  cases hok.symm.trans happly
  refine ⟨hgone.consistent, fun q hq => .inr ?_⟩
  obtain ⟨hne, hsite⟩ := SelfLoopPlaceSite.of_gone (a := s.accepting)
    (b := ⟨n, (s.accepting.initial.take p).2, s.accepting.final⟩) hgone rfl rfl
    ((isSelfLoopPlace_iff hgone.consistent.mirrored).1 (selfLoopPlaces_match?_ne_none.1 hq))
  exact ⟨hne, selfLoopPlaces_match?_ne_none.2 ((isSelfLoopPlace_iff hs.mirrored).2 hsite)⟩

theorem silentSteps_requeues : silentSteps.Requeues := by
  intro s t m l s' hs hm happly
  obtain ⟨hsite, _, htargets⟩ := (silentStepAt?_eq_some_iff hs.mirrored).1 hm
  obtain ⟨_, n, hok, hf⟩ := exists_skipSilentStep hs hm
  obtain rfl := answer_skipSilentStep happly
  change skipSilentStep t m s = _ at happly
  cases hok.symm.trans happly
  refine ⟨hf.consistent, fun u hu => ?_⟩
  obtain ⟨m', hm'⟩ := Option.ne_none_iff_exists'.1 hu
  obtain ⟨hsite', _⟩ := (silentStepAt?_eq_some_iff (a := (s.withNet n).accepting)
    hf.consistent.mirrored).1 hm'
  by_cases hnear : ∃ q, Arc.output t q ∈ s.net.arcs ∧ Arc.input q u ∈ n.arcs
  · obtain ⟨q, hq, hin⟩ := hnear
    refine .inl (List.mem_flatMap.2 ⟨q, ?_, (Net.mem_consumers hf.consistent.mirrored).2 hin⟩)
    rw [htargets]
    exact (Net.mem_postset hs.mirrored).2 hq
  · refine .inr ⟨(hf.isSilent_iff.1 hsite'.silent).1, ?_⟩
    have hbefore := hsite.of_fused (b := (s.withNet n).accepting) hf (fun _ => rfl) hsite'
      fun q hq hin => hnear ⟨q, hq, hin⟩
    exact Option.ne_none_iff_exists'.2 ⟨⟨m'.place, s.net.producers m'.place, s.net.postset u⟩,
      (silentStepAt?_eq_some_iff hs.mirrored).2 ⟨hbefore, rfl, rfl⟩⟩

end Reduction

end ProcessNet
