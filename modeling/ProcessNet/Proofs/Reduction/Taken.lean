/-
The steps that are taken. A turn of a rule records as many steps as it answers, all of that rule, so that
the counts of the passes are those of the recorded steps.
-/
import ProcessNet.Proofs.Reduction.Turn

namespace ProcessNet.Reduction

variable {checker : Option Checker} {rule : Rule} {k k' : Nat} {s s' s'' : Reduction}

/-! ## Steps on record -/

theorem commit_eq_ok {before : NetSize} {step : ReductionStep}
    (h : commit checker before step s = .ok () s') : s' = s.record step := by
  unfold commit at h
  split at h
  · split at h
    · cases h
      rfl
    · cases h
  · cases h

theorem LocalRule.perform_eq_ok {ι : Type} {rule : LocalRule ι} {i : ι} {m : rule.Match}
    {neighbours : List ι} (h : rule.perform checker i m s = .ok neighbours s') :
    ∃ s₁, rule.apply i m s = .ok neighbours s₁ ∧ s' = s₁.record (rule.describe s.net i m) := by
  unfold LocalRule.perform at h
  rw [get_bind] at h
  obtain ⟨l, s₁, happly, h⟩ := bind_eq_ok.1 h
  obtain ⟨_, s₂, hcommit, h⟩ := bind_eq_ok.1 h
  cases h
  exact ⟨s₁, happly, commit_eq_ok hcommit⟩

/-- From `s` to `s'` there are `k` more steps on record, all by the rule. -/
def Took (rule : Rule) (k : Nat) (s s' : Reduction) : Prop :=
  ∃ more, s'.steps = s.steps ++ more ∧ more.length = k ∧ ∀ step ∈ more, step.rule = rule

theorem Took.none (h : s'.steps = s.steps) : Took rule 0 s s' :=
  ⟨[], by rw [h, List.append_nil], rfl, fun _ hstep => absurd hstep List.not_mem_nil⟩

theorem Took.record {step : ReductionStep} (h : s'.steps = s.steps) (hrule : step.rule = rule) :
    Took rule 1 s (s'.record step) :=
  ⟨[step], by rw [Reduction.record, h], rfl, fun _ hstep => List.mem_singleton.1 hstep ▸ hrule⟩

theorem Took.trans (h : Took rule k s s') (h' : Took rule k' s' s'') : Took rule (k + k') s s'' := by
  obtain ⟨more, hsteps, rfl, hrule⟩ := h
  obtain ⟨more', hsteps', rfl, hrule'⟩ := h'
  refine ⟨more ++ more', by rw [hsteps', hsteps, List.append_assoc], List.length_append, fun step hstep => ?_⟩
  exact (List.mem_append.1 hstep).elim (hrule step) (hrule' step)

/-- `drain` takes as many steps as it counts. -/
theorem took_drain {ι : Type} [DecidableEq ι] {r : LocalRule ι} (h : r.Fits)
    (hrule : ∀ n i m, (r.describe n i m).rule = rule) {queue : List ι} {applied : Nat}
    (hs : s.net.Consistent) (hrun : drain r checker queue applied s = .ok k s') :
    ∃ j, k = applied + j ∧ Took rule j s s' := by
  -- along the rounds of the loop: only the last case, where the rule is applied, takes a step
  induction queue, applied, s using drain_induction r checker with
  | nil applied s =>
    rw [drain_nil] at hrun
    cases hrun
    exact ⟨0, rfl, .none rfl⟩
  | idle applied s i queue hm ih =>
    rw [drain_cons_of_none hm] at hrun
    exact ih hs hrun
  | error applied s i queue m hm e s₁ hp =>
    rw [drain_cons_of_error hm hp] at hrun
    cases hrun
  | ok applied s i queue m hm neighbours s₁ hp ih =>
    rw [drain_cons_of_ok hm hp] at hrun
    obtain ⟨s₂, happly, rfl⟩ := LocalRule.perform_eq_ok hp
    have hfits := h s i m hs hm
    rw [happly] at hfits
    obtain ⟨hstep, hsteps⟩ := hfits
    have hcons : s₂.net.Consistent := (hstep.lighter hs.mirrored).consistent
    obtain ⟨j, rfl, htook⟩ := ih hcons hrun
    exact ⟨1 + j, Nat.add_assoc _ _ _, (Took.record hsteps (hrule _ _ _)).trans htook⟩

theorem took_run {ι : Type} [DecidableEq ι] {r : LocalRule ι} (h : r.Fits)
    (hrule : ∀ n i m, (r.describe n i m).rule = rule) {anchors : List ι} (hs : s.net.Consistent)
    (hrun : run r checker anchors s = .ok k s') : Took rule k s s' := by
  obtain ⟨j, rfl, htook⟩ := took_drain h hrule hs hrun
  rwa [Nat.zero_add]

/-- `performOnce` takes one step if its change records none. -/
theorem took_performOnce {describe : Net → ReductionStep} {change : ReductionM Unit}
    (hchange : ∀ s s', change s = .ok () s' → s'.steps = s.steps)
    (hrule : ∀ n, (describe n).rule = rule) (hrun : performOnce checker describe change s = .ok () s') :
    Took rule 1 s s' := by
  unfold performOnce at hrun
  rw [get_bind] at hrun
  obtain ⟨_, s₁, hok, hcommit⟩ := bind_eq_ok.1 hrun
  obtain rfl := commit_eq_ok hcommit
  exact .record (hchange _ _ hok) (hrule _)

/-- `forM` takes one step for each member of its list. -/
theorem took_forM {α : Type} {f : α → ReductionM Unit} {l : List α}
    (hf : ∀ a ∈ l, ∀ s s', f a s = .ok () s' → Took rule 1 s s') (hrun : l.forM f s = .ok () s') :
    Took rule l.length s s' := by
  induction l generalizing s with
  | nil =>
    cases hrun
    exact .none rfl
  | cons a l ih =>
    rw [List.forM] at hrun
    obtain ⟨_, s₁, ha, hl⟩ := bind_eq_ok.1 hrun
    have hrest := ih (fun b hb => hf b (List.mem_cons_of_mem _ hb)) hl
    rw [List.length_cons, Nat.add_comm]
    exact (hf a List.mem_cons_self _ _ ha).trans hrest

/-- To remove nodes one after the other with `forM` records nothing. -/
theorem steps_of_forM {α : Type} {f : α → ReductionM Unit} {l : List α}
    (hf : ∀ a s s', f a s = .ok () s' → s'.steps = s.steps) (hrun : l.forM f s = .ok () s') :
    s'.steps = s.steps :=
  rel_of_forM (R := fun s s' : Reduction => s'.steps = s.steps) (fun _ => rfl)
    (fun _ _ _ h h' => Eq.trans h' h) (fun a _ => hf a) hrun

theorem steps_of_onNet {α : Type} {f : Net → Except NetError (Net × α)} {u : Unit}
    (hrun : onNet f s = .ok u s') : s'.steps = s.steps := by
  obtain ⟨n, x, -, rfl⟩ := onNet_eq_ok hrun
  rfl

theorem took_runParallelTransitions (hrun : runParallelTransitions checker s = .ok k s') :
    Took .fpt k s s' := by
  unfold runParallelTransitions at hrun
  rw [get_bind] at hrun
  obtain ⟨_, s₁, hloop, hpure⟩ := bind_eq_ok.1 hrun
  cases hpure
  exact took_forM (fun m _ s s' => took_performOnce
    (fun s s' => steps_of_forM fun _ _ _ => steps_of_onNet) fun _ => rfl) hloop

theorem took_runParallelPlaces (hrun : runParallelPlaces checker s = .ok k s') :
    Took .fpp k s s' := by
  unfold runParallelPlaces at hrun
  rw [get_bind] at hrun
  obtain ⟨_, s₁, hloop, hpure⟩ := bind_eq_ok.1 hrun
  cases hpure
  refine took_forM (fun m _ s s' => took_performOnce
    (fun s s' => steps_of_forM fun p s s' hdrop => ?_) fun _ => rfl) hloop
  obtain ⟨_, s₂, hremove, htake⟩ := bind_eq_ok.1 hdrop
  cases htake
  exact (steps_of_onNet hremove : s₂.steps = s.steps)

theorem took_runResetsAt {t : TransitionId} (hrun : runResetsAt checker t s = .ok k s') :
    Took .r k s s' := by
  unfold runResetsAt at hrun
  rw [get_bind] at hrun
  obtain ⟨_, s₁, hloop, hpure⟩ := bind_eq_ok.1 hrun
  cases hpure
  exact took_forM (fun p _ s s' => took_performOnce (fun _ _ => steps_of_onNet) fun _ => rfl) hloop

theorem took_runResets (hrun : runResets checker s = .ok k s') : Took .r k s s' := by
  have hends : Ends (fun total s' => Took .r total s s') (fun _ _ => True) (runResets checker s) := by
    unfold runResets
    rw [get_bind]
    refine Ends.foldlM (C := fun _ total s' => Took .r total s s') (fun t _ total s₁ htook => ?_)
      (.none rfl)
    refine Ends.bind ?_
    cases hat : runResetsAt checker t s₁ with
    | ok j s₂ => exact htook.trans (took_runResetsAt hat)
    | error e s₂ => trivial
  rw [hrun] at hends
  exact hends

/-- `runRule` takes as many steps as it answers. -/
theorem took_runRule (hs : s.net.Consistent) (hrun : runRule checker rule s = .ok k s') :
    Took rule k s s' := by
  unfold runRule at hrun
  rw [get_bind] at hrun
  cases rule with
  | fst => exact took_run seriesTransitions_fits (fun _ _ _ => rfl) hs hrun
  | fsp => exact took_run seriesPlaces_fits (fun _ _ _ => rfl) hs hrun
  | fpt => exact took_runParallelTransitions hrun
  | fpp => exact took_runParallelPlaces hrun
  | elt => exact took_run selfLoopTransitions_fits (fun _ _ _ => rfl) hs hrun
  | elp => exact took_run selfLoopPlaces_fits (fun _ _ _ => rfl) hs hrun
  | a => exact took_run silentSteps_fits (fun _ _ _ => rfl) hs hrun
  | r => exact took_runResets hrun

/-! ## Passes -/

variable {options : ReductionOptions} {applied : List (Rule × Nat)} {counts counts' : Counts}

/-- What a `turn` counts are steps on record. -/
theorem length_of_turn (hs : s.net.Consistent) (hrun : turn options counts rule s = .ok counts' s') :
    s'.net.Consistent ∧ s'.steps.length + counts.inPass = s.steps.length + counts'.inPass := by
  cases hruns : options.runs s.size rule with
  | false =>
    rw [turn_of_not_runs hruns] at hrun
    cases hrun
    exact ⟨hs, rfl⟩
  | true =>
    unfold turn at hrun
    rw [get_bind, if_pos hruns] at hrun
    obtain ⟨j, s₁, hrule, hpure⟩ := bind_eq_ok.1 hrun
    cases hpure
    obtain ⟨more, hsteps, rfl, -⟩ := took_runRule hs hrule
    have hends : Ends (fun _ s' => Rewrites s s') (Halted options.checker s)
        (runRule options.checker rule s) := ends_runRule hs (.refl s) rule
    rw [hrule] at hends
    have hrewrites : Rewrites s s' := hends
    refine ⟨hrewrites.consistent hs, ?_⟩
    rw [hsteps, List.length_append]
    exact Nat.add_right_comm _ _ _ |>.trans (Nat.add_assoc _ _ _)

/-- What a `pass` counts are steps on record. -/
theorem length_of_pass (hs : s.net.Consistent) (hrun : pass options applied s = .ok counts s') :
    s'.steps.length = s.steps.length + counts.inPass := by
  have hends : Ends (fun counts (s' : Reduction) =>
      s'.net.Consistent ∧ s'.steps.length = s.steps.length + counts.inPass) (fun _ _ => True)
      (pass options applied s) := by
    refine Ends.foldlM (C := fun _ (counts : Counts) (s' : Reduction) =>
      s'.net.Consistent ∧ s'.steps.length = s.steps.length + counts.inPass) ?_ ⟨hs, rfl⟩
    rintro rule _ counts₁ s₁ ⟨hs₁, hlength⟩
    cases hturn : turn options counts₁ rule s₁ with
    | ok counts₂ s₂ =>
      obtain ⟨hs₂, hmore⟩ := length_of_turn hs₁ hturn
      exact ⟨hs₂, by omega⟩
    | error e s₂ => trivial
  rw [hrun] at hends
  exact hends.2

end ProcessNet.Reduction
