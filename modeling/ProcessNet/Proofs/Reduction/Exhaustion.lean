/-
A rule that has run matches nowhere. The rules with worklists have tried every anchor that matches. The
groups of equal nodes are found once: to drop a node leaves the shapes of all others as they are, so no
further group appears. The reset arcs of one transition do not matter to those of the others.
-/
import ProcessNet.Proofs.Reduction.Requeue

namespace ProcessNet.Reduction

open AcceptingNet

variable {checker : Option Checker} {s s' : Reduction}

/-- If it succeeds, what is left of the accepting net is as claimed. -/
def Leaves {α : Type} (C : AcceptingNet → Prop) (r : EStateM.Result ReductionError Reduction α) :
    Prop :=
  Ends (fun _ s => C s.accepting) (fun _ _ => True) r

theorem Leaves.imp {α : Type} {C D : AcceptingNet → Prop}
    {r : EStateM.Result ReductionError Reduction α} (h : Leaves C r) (hCD : ∀ a, C a → D a) :
    Leaves D r :=
  Ends.imp h (fun _ s => hCD s.accepting) fun _ _ => id

theorem Leaves.bind_pure {α β : Type} {C : AcceptingNet → Prop} {m : ReductionM α}
    (h : Leaves C (m s)) (f : α → β) : Leaves C ((m >>= fun x => pure (f x)) s) :=
  Ends.bind (Ends.imp h (fun _ _ => id) fun _ _ => id)

theorem leaves_performOnce {C : AcceptingNet → Prop} {describe : Net → ReductionStep}
    {change : ReductionM Unit} (h : Leaves C (change s)) :
    Leaves C (performOnce checker describe change s) := by
  unfold performOnce
  rw [get_bind]
  refine Ends.bind (Ends.imp h (fun _ s₁ hs₁ => ?_) fun _ _ => id)
  cases hcommit : commit checker s.size (describe s.net) s₁ with
  | error e s₂ => trivial
  | ok u s₂ =>
    obtain rfl := commit_eq_ok hcommit
    exact hs₁

theorem Leaves.forM {α : Type} {f : α → ReductionM Unit} {C : List α → AcceptingNet → Prop}
    (hturn : ∀ i l s, C (i :: l) s.accepting → Leaves (C l) (f i s)) {l : List α}
    (h : C l s.accepting) : Leaves (C []) (l.forM f s) :=
  Ends.forM (C := fun l (s : Reduction) => C l s.accepting) hturn h

/-! ## Groups -/

section Groups

variable {ι κ : Type} {Alive : AcceptingNet → ι → Prop} {key : AcceptingNet → ι → κ}
  {drop : ι → ReductionM Unit}

/-- Of the nodes of `a` some are left in `a'`, and these have the keys that they had. -/
def Thinned (Alive : AcceptingNet → ι → Prop) (key : AcceptingNet → ι → κ) (a a' : AcceptingNet) :
    Prop :=
  ∀ i, Alive a' i → Alive a i ∧ key a' i = key a i

/-- To drop a node leaves a consistent net without it, and the others as they were. -/
def Thins (Alive : AcceptingNet → ι → Prop) (key : AcceptingNet → ι → κ)
    (drop : ι → ReductionM Unit) : Prop :=
  ∀ s i, s.net.Consistent → Leaves (fun a => a.net.Consistent ∧ Thinned Alive key s.accepting a ∧
    ¬ Alive a i) (drop i s)

theorem Thinned.trans {a a₁ a₂ : AcceptingNet} (h : Thinned Alive key a a₁)
    (k : Thinned Alive key a₁ a₂) : Thinned Alive key a a₂ := fun i hi =>
  ⟨(h i (k i hi).1).1, (k i hi).2.trans (h i (k i hi).1).2⟩

theorem Thins.forM (h : Thins Alive key drop) {l : List ι} (hs : s.net.Consistent) :
    Leaves (fun a => a.net.Consistent ∧ Thinned Alive key s.accepting a ∧ ∀ i ∈ l, ¬ Alive a i)
      (l.forM drop s) := by
  refine (Leaves.forM (C := fun rest a => a.net.Consistent ∧ Thinned Alive key s.accepting a ∧
    ∀ i ∈ l, i ∉ rest → ¬ Alive a i) ?_ ⟨hs, fun i hi => ⟨hi, rfl⟩, fun i hi hn => absurd hi hn⟩).imp
    fun _ hc => ⟨hc.1, hc.2.1, fun i hi => hc.2.2 i hi List.not_mem_nil⟩
  rintro d rest s₁ ⟨hcons, hthin, hdead⟩
  refine (h s₁ d hcons).imp ?_
  rintro a ⟨hcons', hthin', hd⟩
  refine ⟨hcons', hthin.trans hthin', fun i hi hrest halive => ?_⟩
  by_cases hid : i = d
  · exact hd (hid ▸ halive)
  · exact hdead i hi (fun hmem => (List.mem_cons.1 hmem).elim hid hrest) (hthin' i halive).1

/-- When all groups of nodes with equal keys have lost all members but one, no two keys are equal. -/
theorem Thins.leaves_groups (h : Thins Alive key drop)
    {describe : Duplicates ι → Net → ReductionStep} {groups : List (Duplicates ι)}
    (hs : s.net.Consistent)
    (hgroups : ∀ i j, Alive s.accepting i → Alive s.accepting j → i ≠ j →
      key s.accepting i = key s.accepting j →
      ∃ m ∈ groups, i ∈ m.kept :: m.removed ∧ j ∈ m.kept :: m.removed) :
    Leaves (fun a => ∀ i j, Alive a i → Alive a j → i ≠ j → key a i ≠ key a j)
      ((groups.forM fun m => performOnce checker (describe m) (m.removed.forM drop)) s) := by
  -- two nodes with equal keys belong to a group that is still to be merged
  refine (Leaves.forM (C := fun rest a => a.net.Consistent ∧ ∀ i j, Alive a i → Alive a j → i ≠ j →
    key a i = key a j → ∃ m ∈ rest, i ∈ m.kept :: m.removed ∧ j ∈ m.kept :: m.removed) ?_
    ⟨hs, hgroups⟩).imp fun a hc i j hi hj hne hkey => ?_
  · rintro m rest s₁ ⟨hcons, hrest⟩
    refine leaves_performOnce ((h.forM hcons).imp ?_)
    rintro a ⟨hcons', hthin, hdead⟩
    refine ⟨hcons', fun i j hi hj hne hkey => ?_⟩
    obtain ⟨hi', hki⟩ := hthin i hi
    obtain ⟨hj', hkj⟩ := hthin j hj
    obtain ⟨m', hm', himem, hjmem⟩ := hrest i j hi' hj' hne (hki.symm.trans (hkey.trans hkj))
    rcases List.mem_cons.1 hm' with rfl | hm'
    · have hkept : ∀ d ∈ m'.kept :: m'.removed, Alive a d → d = m'.kept :=
        fun d hd halive => (List.mem_cons.1 hd).resolve_right fun hd => hdead d hd halive
      exact absurd ((hkept i himem hi).trans (hkept j hjmem hj).symm) hne
    · exact ⟨m', hm', himem, hjmem⟩
  · obtain ⟨m, hm, _⟩ := hc.2 i j hi hj hne hkey
    cases hm

end Groups

theorem ends_removeTransition {t : TransitionId} (hs : s.net.Consistent) :
    Ends (fun _ s' => ∃ n, s.net.TransitionGone t n ∧ s' = s.withNet n) (fun _ _ => True)
      (removeTransition t s) := by
  cases hrun : removeTransition t s with
  | error e s₁ => trivial
  | ok u s₁ =>
    obtain ⟨n, x, hok, rfl⟩ := onNet_eq_ok hrun
    exact ⟨n, hs.removeTransition hok, rfl⟩

theorem ends_removePlace {p : PlaceId} (hs : s.net.Consistent) :
    Ends (fun _ s' => ∃ n, s.net.PlaceGone p n ∧ s' = s.withNet n) (fun _ _ => True)
      (removePlace p s) := by
  cases hrun : removePlace p s with
  | error e s₁ => trivial
  | ok u s₁ =>
    obtain ⟨n, x, hok, rfl⟩ := onNet_eq_ok hrun
    exact ⟨n, hs.removePlace hok, rfl⟩

theorem thins_transitions :
    Thins (fun a t => a.net.isSilent t) AcceptingNet.transitionShape removeTransition := by
  intro s d hs
  refine Ends.imp (ends_removeTransition hs) ?_ fun _ _ => id
  rintro _ _ ⟨n, hgone, rfl⟩
  have hsilent : ∀ t, n.isSilent t ↔ t ≠ d ∧ s.net.isSilent t := by
    intro t
    unfold Net.isSilent
    rw [hgone.transition?]
    by_cases ht : t = d <;> simp [ht]
  refine ⟨hgone.consistent, fun t ht => ?_, fun hd => ((hsilent d).1 hd).1 rfl⟩
  obtain ⟨htd, ht⟩ := (hsilent t).1 ht
  exact ⟨ht, transitionShape_congr (b := s.accepting) hgone.consistent.mirrored hs.mirrored
    fun p k => (hgone.mem_arcs ⟨p, t, k⟩).trans (and_iff_left htd)⟩

theorem thins_places : Thins (fun a p => a.net.hasPlace p) AcceptingNet.placeShape dropPlace := by
  intro s d hs
  unfold dropPlace
  refine Ends.bind (Ends.imp (ends_removePlace hs) ?_ fun _ _ => id)
  rintro _ _ ⟨n, hgone, rfl⟩
  have hplace : ∀ p, n.hasPlace p ↔ p ≠ d ∧ s.net.hasPlace p := by
    intro p
    unfold Net.hasPlace
    rw [hgone.place?]
    by_cases hp : p = d <;> simp [hp]
  refine ⟨hgone.consistent, fun p hp => ?_, fun hd => ((hplace d).1 hd).1 rfl⟩
  obtain ⟨hpd, hp⟩ := (hplace p).1 hp
  exact ⟨hp, placeShape_congr (b := s.accepting) hgone.consistent.mirrored hs.mirrored
    (fun t k => (hgone.mem_arcs ⟨p, t, k⟩).trans (and_iff_left hpd))
    (Marking.tokens_take_of_ne hpd) (Marking.tokens_take_of_ne hpd)⟩

theorem leaves_runParallelTransitions (hs : s.net.Consistent) :
    Leaves (fun a => ¬ a.Matches .fpt) (runParallelTransitions checker s) := by
  unfold runParallelTransitions
  rw [get_bind]
  refine ((thins_transitions.leaves_groups hs fun t u ht hu hne hkey => ?_).imp ?_).bind_pure _
  · have hmem : ∀ v, s.net.isSilent v → v ∈ s.net.transitionIds.filter s.net.isSilent := fun v hv =>
      List.mem_filter.2 ⟨Net.mem_transitionIds.2 (Net.isSilent_iff.1 hv).1, hv⟩
    exact exists_mem_duplicates (hmem t ht) (hmem u hu) hkey hne
  · rintro a h ⟨t, u, hne, ht, hu, hkey⟩
    exact h t u ht hu hne hkey

theorem leaves_runParallelPlaces (hs : s.net.Consistent) :
    Leaves (fun a => ¬ a.Matches .fpp) (runParallelPlaces checker s) := by
  unfold runParallelPlaces
  rw [get_bind]
  refine ((thins_places.leaves_groups hs fun p q hp hq hne hkey => ?_).imp ?_).bind_pure _
  · exact exists_mem_duplicates (Net.mem_placeIds.2 hp) (Net.mem_placeIds.2 hq) hkey hne
  · rintro a h ⟨p, q, hne, hp, hq, hkey⟩
    exact h p q hp hq hne hkey

/-! ## Reset arcs -/

/-- The arcs of `a'` are arcs of `a`, and the reset arcs of `t` that `a'` does not need are those at the
listed places. -/
structure Clearing (t : TransitionId) (a : AcceptingNet) (places : List PlaceId)
    (a' : AcceptingNet) : Prop where
  consistent : a'.net.Consistent
  fewer : ∀ b ∈ a'.net.arcs, b ∈ a.net.arcs
  nodup : places.Nodup
  needless : ∀ p, p ∈ a'.needlessResets t ↔ p ∈ places

theorem leaves_runResetsAt (hs : s.net.Consistent) (t : TransitionId) :
    Leaves (fun a => a.net.Consistent ∧ (∀ b ∈ a.net.arcs, b ∈ s.net.arcs) ∧ a.needlessResets t = [])
      (runResetsAt checker t s) := by
  unfold runResetsAt
  rw [get_bind]
  refine ((Leaves.forM (C := Clearing t s.accepting) ?_
    ⟨hs, fun _ hb => hb, nodup_needlessResets t, fun _ => Iff.rfl⟩).imp ?_).bind_pure _
  · rintro p rest s₁ h
    obtain ⟨hp, hnodup⟩ := List.nodup_cons.1 h.nodup
    have hneedless := (h.needless p).2 List.mem_cons_self
    obtain ⟨n, hok, hgone⟩ := exists_removeReset h.consistent
      ((mem_needlessResets h.consistent.mirrored).1 hneedless).1
    refine leaves_performOnce ?_
    rw [hok]
    refine ⟨hgone.consistent, fun b hb => h.fewer b ((hgone.mem_arcs b).1 hb).1, hnodup, fun q => ?_⟩
    have hreset : Arc.reset q t ∈ n.arcs ↔ Arc.reset q t ∈ s₁.net.arcs ∧ q ≠ p :=
      (hgone.mem_arcs _).trans (and_congr_right fun _ => not_congr
        ⟨fun he => congrArg Arc.place he, fun he => he ▸ rfl⟩)
    have hinhibitor : Arc.inhibitor q t ∈ n.arcs ↔ Arc.inhibitor q t ∈ s₁.net.arcs :=
      (hgone.mem_arcs _).trans (and_iff_left fun he => nomatch congrArg Arc.kind he)
    have hlisted := h.needless q
    rw [mem_needlessResets h.consistent.mirrored, List.mem_cons] at hlisted
    rw [mem_needlessResets (a := (s₁.withNet n).accepting) hgone.consistent.mirrored]
    change Arc.reset q t ∈ n.arcs ∧ Arc.inhibitor q t ∈ n.arcs ↔ q ∈ rest
    rw [hreset, hinhibitor, and_right_comm]
    constructor
    · exact fun hq => (hlisted.1 hq.1).resolve_left hq.2
    · exact fun hq => ⟨hlisted.2 (.inr hq), ne_of_mem_of_not_mem hq hp⟩
  · rintro a h
    exact ⟨h.consistent, h.fewer, List.eq_nil_iff_forall_not_mem.2 fun p hp =>
      List.not_mem_nil ((h.needless p).1 hp)⟩

theorem leaves_runResets (hs : s.net.Consistent) :
    Leaves (fun a => ¬ a.Matches .r) (runResets checker s) := by
  unfold runResets
  rw [get_bind]
  -- a transition with a needless reset arc is still to come
  refine Ends.imp (Ends.foldlM (C := fun rest _ (s : Reduction) => s.net.Consistent ∧
    ∀ t, s.accepting.needlessResets t ≠ [] → t ∈ rest) (fun t rest total s₁ h => ?_)
    ⟨hs, fun t ht => ?_⟩) (fun _ s₁ h => ?_) fun _ _ => id
  · obtain ⟨hcons, hrest⟩ := h
    refine Leaves.bind_pure (C := fun a => a.net.Consistent ∧
      ∀ u, a.needlessResets u ≠ [] → u ∈ rest) ((leaves_runResetsAt hcons t).imp ?_) _
    rintro a ⟨hcons', hfewer, hnone⟩
    refine ⟨hcons', fun u hu => ?_⟩
    obtain ⟨p, hp⟩ := List.exists_mem_of_ne_nil _ hu
    obtain ⟨hreset, hinhibitor⟩ := (mem_needlessResets hcons'.mirrored).1 hp
    have hbefore := (mem_needlessResets hcons.mirrored).2
      ⟨hfewer _ hreset, hfewer _ hinhibitor⟩
    refine (List.mem_cons.1 (hrest u (List.ne_nil_of_mem hbefore))).resolve_left ?_
    rintro rfl
    exact hu hnone
  · obtain ⟨p, hp⟩ := List.exists_mem_of_ne_nil _ ht
    exact Net.mem_transitionIds.2
      (hs.liveTransition _ ((mem_needlessResets hs.mirrored).1 hp).1)
  · rintro ⟨t, _, ht⟩
    exact List.not_mem_nil (h.2 t ht)

/-! ## All rules -/

theorem leaves_runRule (hs : s.net.Consistent) (rule : Rule) :
    Leaves (fun a => ¬ a.Matches rule) (runRule checker rule s) := by
  unfold runRule
  rw [get_bind]
  cases rule with
  | fst =>
    refine Ends.imp (seriesTransitions_requeues.run hs fun p hp => ?_) ?_ fun _ _ => id
    · exact Net.mem_placeIds.2 (hasPlace_of_seriesTransitionsAt? hp)
    · rintro _ s₁ h ⟨p, hp⟩
      exact hp (h p)
  | fsp =>
    refine Ends.imp (seriesPlaces_requeues.run hs fun t ht => ?_) ?_ fun _ _ => id
    · exact Net.mem_transitionIds.2 (Net.isSilent_iff.1 (isSilent_of_seriesPlacesAt? ht)).1
    · rintro _ s₁ h ⟨t, ht⟩
      exact ht (h t)
  | fpt => exact leaves_runParallelTransitions hs
  | fpp => exact leaves_runParallelPlaces hs
  | elt =>
    refine Ends.imp (selfLoopTransitions_requeues.run hs fun t ht => ?_) ?_ fun _ _ => id
    · exact Net.mem_transitionIds.2 (Net.isSilent_iff.1 (isSilent_of_selfLoopTransitionAt? ht)).1
    · rintro _ s₁ h ⟨t, ht⟩
      exact ht (h t)
  | elp =>
    refine Ends.imp (selfLoopPlaces_requeues.run hs fun p hp => ?_) ?_ fun _ _ => id
    · exact Net.mem_placeIds.2 (hasPlace_of_isSelfLoopPlace (selfLoopPlaces_match?_ne_none.1 hp))
    · rintro _ s₁ h ⟨p, hp⟩
      exact selfLoopPlaces_match?_ne_none.2 hp (h p)
  | a =>
    refine Ends.imp (silentSteps_requeues.run hs fun t ht => ?_) ?_ fun _ _ => id
    · exact Net.mem_transitionIds.2 (Net.isSilent_iff.1 (isSilent_of_silentStepAt? ht)).1
    · rintro _ s₁ h ⟨t, ht⟩
      exact ht (h t)
  | r => exact leaves_runResets hs

/-- A rule that has run on a consistent net matches nowhere in what is left, so to run it once more finds
nothing. -/
theorem runRule_exhausts {checker : Option Checker} {rule : Rule} {s s' : Reduction} {applied : Nat}
    (hnet : s.net.checkConsistency = .ok ()) (hnodup : s.net.arcs.Nodup)
    (h : runRule checker rule s = .ok applied s') :
    ¬ s'.accepting.Matches rule ∧ runRule checker rule s' = .ok 0 s' := by
  have hleaves : Leaves (fun a => ¬ a.Matches rule) (runRule checker rule s) :=
    leaves_runRule ((Net.consistent_iff_checkConsistency hnodup).2 hnet) rule
  rw [h] at hleaves
  exact ⟨hleaves, runRule_of_not_matches hleaves⟩

/-- Once the silent transition of the handover is fused, no transitions are in series. -/
theorem handover_exhausted :
    let fused : Reduction :=
      { accepting := direct, steps := [.seriesTransitionsFused "between" "pass" "work"] }
    ¬ direct.Matches .fst ∧ runRule none .fst fused = .ok 0 fused := by
  have hrun : runRule none .fst { accepting := handover } = .ok 1
      { accepting := direct, steps := [.seriesTransitionsFused "between" "pass" "work"] } := by
    cbv
  exact runRule_exhausts (by decide) (by decide) hrun

end ProcessNet.Reduction
