/-
The calls of the checker. A reduction goes the same way with every checker, up to the first step after which
the checker objects: for the states that the checker is shown there is one list, whatever the checker answers.
No net stands twice in it, because every step makes the net smaller.
-/
import ProcessNet.Proofs.Reduction.Turn

namespace ProcessNet.Reduction

open AcceptingNet

/-- Steps that follow each other, each of them with the state that it leads to, before `commit` records
it. -/
inductive Trail : Reduction → List (ReductionStep × Reduction) → Reduction → Prop
  | nil (s : Reduction) : Trail s [] s
  | cons {s s₁ s' : Reduction} {step : ReductionStep} {l : List (ReductionStep × Reduction)}
    (hstep : s.accepting.Rewritten step s₁.accepting) (hsteps : s₁.steps = s.steps)
    (h : Trail (s₁.record step) l s') : Trail s ((step, s₁) :: l) s'

variable {s s₁ s' s'' : Reduction} {step : ReductionStep} {checker : Option Checker}
  {l l' before behind : List (ReductionStep × Reduction)}

namespace Trail

theorem append (h : Trail s l s') (h' : Trail s' l' s'') : Trail s (l ++ l') s'' := by
  induction h with
  | nil => exact h'
  | cons hstep hsteps _ ih => exact .cons hstep hsteps (ih h')

theorem steps (h : Trail s l s') : s'.steps = s.steps ++ l.map Prod.fst := by
  induction h with
  | nil => exact (List.append_nil _).symm
  | cons _ hsteps _ ih =>
    rw [ih, Reduction.record, hsteps, List.append_assoc]
    rfl

/-- In front of a state of the trail there are the steps that are on record there. -/
theorem steps_of_append (h : Trail s (before ++ (step, s₁) :: behind) s') :
    s₁.steps = s.steps ++ before.map Prod.fst := by
  induction before generalizing s with
  | nil =>
    cases h with
    | cons _ hsteps _ => exact hsteps.trans (List.append_nil _).symm
  | cons x before ih =>
    cases h with
    | cons _ hsteps h =>
      rw [ih h, Reduction.record, hsteps, List.append_assoc]
      rfl

theorem smaller (hs : s.net.Consistent) (h : Trail s l s') :
    ∀ x ∈ l, x.2.size.Smaller s.size := by
  induction h with
  | nil => exact List.forall_mem_nil _
  | @cons s s₁ s' step l hstep _ _ ih =>
    have hlighter := hstep.lighter hs.mirrored
    refine List.forall_mem_cons.2 ⟨hlighter.smaller, fun x hx => ?_⟩
    exact (ih hlighter.consistent x hx).trans hlighter.smaller

/-- No net is shown twice. -/
theorem net_ne (hs : s.net.Consistent) (h : Trail s (before ++ (step, s₁) :: behind) s') :
    ∀ x ∈ before, x.2.net ≠ s₁.net := by
  induction before generalizing s with
  | nil => exact List.forall_mem_nil _
  | cons y before ih =>
    cases h with
    | @cons _ s₂ _ step₂ _ hstep _ h =>
      have hs₂ : (s₂.record step₂).net.Consistent := (hstep.lighter hs.mirrored).consistent
      refine List.forall_mem_cons.2 ⟨fun he => ?_, ih hs₂ h⟩
      have hlt : s₁.size.Smaller s₂.size :=
        h.smaller hs₂ (step, s₁) (List.mem_append_right _ List.mem_cons_self)
      rw [size, size, ← he] at hlt
      exact NetSize.smaller_irrefl _ hlt

end Trail

/-! ## What a checker makes of a run -/

/-- The result `r` of a run without a checker becomes an error if the checker objects to one of the states
that it is shown. -/
def judged {α : Type} (checker : Option Checker) (r : EStateM.Result ReductionError Reduction α) :
    List (ReductionStep × Reduction) → EStateM.Result ReductionError Reduction α
  | [] => r
  | (step, s) :: l =>
    match objection? checker step.rule s.net with
    | none => judged checker r l
    | some e => .error e s

/-- The checker objects to none of the states. -/
def Unopposed (checker : Option Checker) (l : List (ReductionStep × Reduction)) : Prop :=
  ∀ x ∈ l, objection? checker x.1.rule x.2.net = none

section Judged

variable {α β : Type} {r : EStateM.Result ReductionError Reduction α}

theorem judged_of_unopposed (h : Unopposed checker l) : judged checker r l = r := by
  induction l with
  | nil => rfl
  | cons x l ih =>
    obtain ⟨hx, hl⟩ := List.forall_mem_cons.1 h
    unfold judged
    rw [hx]
    exact ih hl

theorem judged_append (h : Unopposed checker l) : judged checker r (l ++ l') = judged checker r l' := by
  induction l with
  | nil => rfl
  | cons x l ih =>
    obtain ⟨hx, hl⟩ := List.forall_mem_cons.1 h
    rw [List.cons_append, judged, hx]
    exact ih hl

/-- The checker objects to no state of the trail, or there is a first one that it objects to. -/
theorem unopposed_or_exists (checker : Option Checker) (l : List (ReductionStep × Reduction)) :
    Unopposed checker l ∨ ∃ before step s behind e, l = before ++ (step, s) :: behind ∧
      Unopposed checker before ∧ objection? checker step.rule s.net = some e := by
  induction l with
  | nil => exact .inl (List.forall_mem_nil _)
  | cons x l ih =>
    obtain ⟨step, s⟩ := x
    cases hx : objection? checker step.rule s.net with
    | some e => exact .inr ⟨[], step, s, l, e, rfl, List.forall_mem_nil _, hx⟩
    | none =>
      rcases ih with hl | ⟨before, step', s', behind, e, rfl, hbefore, he⟩
      · exact .inl (List.forall_mem_cons.2 ⟨hx, hl⟩)
      · exact .inr ⟨(step, s) :: before, step', s', behind, e, rfl,
          List.forall_mem_cons.2 ⟨hx, hbefore⟩, he⟩

theorem judged_of_objection {e : ReductionError} (hbefore : Unopposed checker before)
    (he : objection? checker step.rule s.net = some e) :
    judged checker r (before ++ (step, s) :: behind) = .error e s := by
  rw [judged_append hbefore, judged, he]

theorem judged_none (r : EStateM.Result ReductionError Reduction α)
    (l : List (ReductionStep × Reduction)) : judged none r l = r :=
  judged_of_unopposed fun _ _ => rfl

end Judged

/-- The states of the list are those that a checker is shown on the way of `f` from `s`, and nothing but
an objection to one of them makes a difference between one checker and another. -/
structure Asks {α : Type} (f : Option Checker → ReductionM α) (s : Reduction)
    (l : List (ReductionStep × Reduction)) : Prop where
  judged : ∀ checker, f checker s = judged checker (f none s) l
  trail : ∃ s', Trail s l s' ∧ ∀ a s₁, f none s = .ok a s₁ → s₁ = s'

namespace Asks

variable {α β : Type} {f g : Option Checker → ReductionM α}

theorem congr (h : Asks f s l) (hfg : ∀ checker, g checker s = f checker s) : Asks g s l where
  judged checker := by rw [hfg, hfg, h.judged checker]
  trail := by
    obtain ⟨s', htrail, hend⟩ := h.trail
    exact ⟨s', htrail, fun a s₁ hok => hend a s₁ ((hfg none).symm.trans hok)⟩

theorem pure (a : α) (s : Reduction) : Asks (fun _ => (Pure.pure a : ReductionM α)) s [] where
  judged _ := rfl
  trail := ⟨s, .nil s, fun _ _ hok => by cases hok; rfl⟩

theorem error (e : ReductionError) (s₁ : Reduction) (h : ∀ checker, f checker s = .error e s₁) :
    Asks f s [] where
  judged checker := (h checker).trans (h none).symm
  trail := ⟨s, .nil s, fun _ _ hok => nomatch (h none).symm.trans hok⟩

/-- Two steps ask one after the other, if the first one succeeds. -/
theorem bind {f : Option Checker → ReductionM α} {g : α → Option Checker → ReductionM β}
    (hf : Asks f s l) (hg : ∀ a s', f none s = .ok a s' → ∃ l', Asks (g a) s' l') :
    ∃ l', Asks (fun checker => f checker >>= fun a => g a checker) s l' := by
  obtain ⟨s', htrail, hend⟩ := hf.trail
  cases hok : f none s with
  | error e s₁ =>
    have hnone : (f none >>= fun a => g a none) s = .error e s₁ := bind_of_error hok
    refine ⟨l, fun checker => ?_, s', htrail, fun a s₂ h => nomatch hnone.symm.trans h⟩
    have hjudged := hf.judged checker
    rw [hnone]
    rw [hok] at hjudged
    rcases unopposed_or_exists checker l with hl | ⟨before, step, s₂, behind, e', rfl, hbefore, he⟩
    · rw [judged_of_unopposed hl] at hjudged ⊢
      exact bind_of_error hjudged
    · rw [judged_of_objection hbefore he] at hjudged ⊢
      exact bind_of_error hjudged
  | ok a s₁ =>
    obtain rfl := hend a s₁ hok
    obtain ⟨l', hl'⟩ := hg a s₁ hok
    obtain ⟨s₂, htrail', hend'⟩ := hl'.trail
    have hnone : (f none >>= fun a => g a none) s = g a none s₁ := bind_of_ok hok
    refine ⟨l ++ l', fun checker => ?_, s₂, htrail.append htrail', fun b s₃ h =>
      hend' b s₃ (hnone.symm.trans h)⟩
    have hjudged := hf.judged checker
    rw [hnone]
    rw [hok] at hjudged
    rcases unopposed_or_exists checker l with hl | ⟨before, step, s₃, behind, e', rfl, hbefore, he⟩
    · rw [judged_of_unopposed hl] at hjudged
      rw [judged_append hl, bind_of_ok hjudged]
      exact hl'.judged checker
    · rw [judged_of_objection hbefore he] at hjudged
      rw [List.append_assoc, List.cons_append, judged_of_objection hbefore he]
      exact bind_of_error hjudged

end Asks

/-! ## Single steps -/

/-- After a change that makes one step, `commit` shows the checker where the step has led. -/
theorem judged_commit (hs : s.net.Consistent) (hstep : s.accepting.Rewritten step s₁.accepting)
    (checker : Option Checker) :
    commit checker s.size step s₁ = judged checker (.ok () (s₁.record step)) [(step, s₁)] := by
  have hsmaller : s₁.size.Smaller s.size := (hstep.lighter hs.mirrored).smaller
  unfold commit
  rw [if_pos hsmaller]
  rfl

theorem judged_bind_pure {α β : Type} {m : ReductionM α} {a : α}
    (hm : m s = judged checker (.ok a s') l) (b : β) :
    (m >>= fun _ => pure b) s = judged checker (.ok b s') l := by
  rcases unopposed_or_exists checker l with hl | ⟨before, step, s₂, behind, e, rfl, hbefore, he⟩
  · rw [judged_of_unopposed hl] at hm ⊢
    exact bind_of_ok hm
  · rw [judged_of_objection hbefore he] at hm ⊢
    exact bind_of_error hm

/-- What calls `commit` once, where one step has led, asks once. -/
theorem Asks.single {α : Type} {f : Option Checker → ReductionM α} {a : α}
    (hstep : s.accepting.Rewritten step s₁.accepting) (hsteps : s₁.steps = s.steps)
    (hf : ∀ checker, f checker s = Reduction.judged checker (.ok a (s₁.record step)) [(step, s₁)]) :
    Asks f s [(step, s₁)] := by
  have hnone : f none s = .ok a (s₁.record step) := (hf none).trans (judged_none _ _)
  refine ⟨fun checker => hnone ▸ hf checker, _, .cons hstep hsteps (.nil _), fun _ _ hok => ?_⟩
  cases hnone.symm.trans hok
  rfl

theorem LocalRule.Fits.asks_perform {ι : Type} {rule : LocalRule ι} (h : rule.Fits)
    (hs : s.net.Consistent) {i : ι} {m : rule.Match} (hm : rule.match? s.accepting i = some m) :
    ∃ l, Asks (fun checker => rule.perform checker i m) s l := by
  have hfits := h s i m hs hm
  unfold LocalRule.perform
  cases happly : rule.apply i m s with
  | error e s₁ => exact ⟨[], .error e s₁ fun checker => by rw [get_bind]; exact bind_of_error happly⟩
  | ok neighbours s₁ =>
    rw [happly] at hfits
    obtain ⟨hstep, hsteps⟩ := hfits
    refine ⟨_, .single (a := neighbours) hstep hsteps fun checker => ?_⟩
    rw [get_bind, bind_of_ok happly]
    exact judged_bind_pure (judged_commit hs hstep checker) neighbours

/-- `performOnce` asks once if its change makes one step. -/
theorem asks_performOnce {describe : Net → ReductionStep} {change : ReductionM Unit}
    {a : AcceptingNet} (hs : s.net.Consistent) (hchange : change s = .ok () { s with accepting := a })
    (hstep : s.accepting.Rewritten (describe s.net) a) :
    ∃ l, Asks (fun checker => performOnce checker describe change) s l := by
  unfold performOnce
  refine ⟨[(describe s.net, { s with accepting := a })], .single (a := ()) hstep rfl fun checker => ?_⟩
  rw [get_bind, bind_of_ok hchange]
  exact judged_commit hs hstep checker

/-! ## Loops -/

theorem drain_cons_of_some {ι : Type} [DecidableEq ι] {rule : LocalRule ι} {i : ι} {queue : List ι}
    {applied : Nat} {m : rule.Match} (h : rule.match? s.accepting i = some m) :
    drain rule checker (i :: queue) applied s = (rule.perform checker i m >>= fun neighbours =>
      (drain rule checker (enqueue queue neighbours) (applied + 1) : ReductionM Nat)) s := by
  simp only [bind, EStateM.bind]
  cases hp : rule.perform checker i m s with
  | error e s' => exact drain_cons_of_error h hp
  | ok neighbours s' => exact drain_cons_of_ok h hp

theorem LocalRule.Fits.asks_drain {ι : Type} [DecidableEq ι] {rule : LocalRule ι} (h : rule.Fits)
    (hs : s.net.Consistent) (queue : List ι) (applied : Nat) :
    ∃ l, Asks (fun checker => Reduction.drain rule checker queue applied) s l := by
  -- along the rounds of the run without a checker
  induction queue, applied, s using drain_induction rule none with
  | nil applied s => exact ⟨[], (Asks.pure applied s).congr fun _ => drain_nil⟩
  | idle applied s i queue hm ih =>
    obtain ⟨l, hl⟩ := ih hs
    exact ⟨l, hl.congr fun _ => drain_cons_of_none hm⟩
  | error applied s i queue m hm e s₁ hp =>
    obtain ⟨l, hl⟩ := h.asks_perform hs hm
    obtain ⟨l', hl'⟩ := hl.bind (g := fun neighbours checker =>
      Reduction.drain rule checker (enqueue queue neighbours) (applied + 1))
      fun neighbours s' hok => nomatch hp.symm.trans hok
    exact ⟨l', hl'.congr fun _ => drain_cons_of_some hm⟩
  | ok applied s i queue m hm neighbours s₁ hp ih =>
    have hs₁ : s₁.net.Consistent := by
      have hends : Ends _ (Halted none s) (rule.perform none i m s) := h.perform hs (.refl s) hm
      rw [hp] at hends
      exact Rewrites.consistent hends hs
    obtain ⟨l, hl⟩ := h.asks_perform hs hm
    obtain ⟨l', hl'⟩ := hl.bind (g := fun neighbours checker =>
      Reduction.drain rule checker (enqueue queue neighbours) (applied + 1)) fun neighbours' s' hok => by
        cases hp.symm.trans hok
        exact ih hs₁
    exact ⟨l', hl'.congr fun _ => drain_cons_of_some hm⟩

theorem LocalRule.Fits.asks_run {ι : Type} [DecidableEq ι] {rule : LocalRule ι} (h : rule.Fits)
    (hs : s.net.Consistent) (anchors : List ι) :
    ∃ l, Asks (fun checker => Reduction.run rule checker anchors) s l :=
  h.asks_drain hs _ 0

/-- `forM` asks what its turns ask, if each of them keeps what the next ones rely on. -/
theorem asks_forM {α : Type} {f : α → Option Checker → ReductionM PUnit} {C : List α → Reduction → Prop}
    (hturn : ∀ a l s, C (a :: l) s → (∃ asked, Asks (f a) s asked) ∧
      Ends (fun _ s' => C l s') (fun _ _ => True) (f a none s)) {l : List α} (h : C l s) :
    ∃ asked, Asks (fun checker => l.forM fun a => f a checker) s asked := by
  induction l generalizing s with
  | nil => exact ⟨[], Asks.pure PUnit.unit s⟩
  | cons a l ih =>
    obtain ⟨⟨asked, hasked⟩, hends⟩ := hturn a l s h
    simp only [List.forM]
    refine hasked.bind (g := fun _ checker => l.forM fun a => f a checker) fun _ s' hok => ?_
    rw [hok] at hends
    exact ih hends

theorem asks_foldlM {α β : Type} {f : β → α → Option Checker → ReductionM β} {C : Reduction → Prop}
    (hturn : ∀ b a s, C s → (∃ asked, Asks (f b a) s asked) ∧
      Ends (fun _ s' => C s') (fun _ _ => True) (f b a none s)) {l : List α} {b : β} (h : C s) :
    ∃ asked, Asks (fun checker => l.foldlM (fun b a => f b a checker) b) s asked := by
  induction l generalizing b s with
  | nil => exact ⟨[], Asks.pure b s⟩
  | cons a l ih =>
    obtain ⟨⟨asked, hasked⟩, hends⟩ := hturn b a s h
    simp only [List.foldlM_cons]
    refine hasked.bind (g := fun b checker => l.foldlM (fun b a => f b a checker) b)
      fun b' s' hok => ?_
    rw [hok] at hends
    exact ih hends

theorem Asks.bind_pure {α β : Type} {f : Option Checker → ReductionM α} (h : ∃ l, Asks f s l)
    (g : α → β) : ∃ l, Asks (fun checker => f checker >>= fun a => Pure.pure (g a)) s l := by
  obtain ⟨l, hl⟩ := h
  exact hl.bind (g := fun a _ => Pure.pure (g a)) fun a s' _ => ⟨[], Asks.pure (g a) s'⟩

theorem Asks.get {β : Type} {g : Reduction → Option Checker → ReductionM β}
    (h : ∃ l, Asks (g s) s l) : ∃ l, Asks (fun checker => MonadState.get >>= fun s => g s checker) s l := by
  obtain ⟨l, hl⟩ := h
  exact ⟨l, hl.congr fun _ => rfl⟩

theorem Merging.asks_groups {ι : Type} {drop : ι → ReductionM Unit}
    {Twins : AcceptingNet → ι → List ι → Prop} {Drop : ι → ι → AcceptingNet → AcceptingNet → Prop}
    (h : Merging drop Twins Drop) {describe : Duplicates ι → Net → ReductionStep}
    (hdescribe : ∀ m a a', m.removed ≠ [] → Dropped (Drop m.kept) m.removed a a' →
      a.Rewritten (describe m a.net) a')
    {groups : List (Duplicates ι)} (hs : s.net.Consistent)
    (hgroups : TwinGroups Twins s.accepting groups) :
    ∃ l, Asks (fun checker =>
      groups.forM fun m => performOnce checker (describe m) (m.removed.forM drop)) s l := by
  refine asks_forM (C := fun groups s => s.net.Consistent ∧ TwinGroups Twins s.accepting groups) ?_
    ⟨hs, hgroups⟩
  rintro m groups s ⟨hs, hgroups⟩
  obtain ⟨a', hok, hne, hdropped, hrest⟩ := h.exists_head hs hgroups
  have hstep := hdescribe m _ _ hne hdropped
  refine ⟨asks_performOnce hs hok hstep, (ends_performOnce hs (.refl s) hok hstep).imp ?_
    fun _ _ _ => trivial⟩
  rintro _ s' ⟨rfl, h'⟩
  exact ⟨h'.consistent hs, hrest⟩

theorem asks_runParallelTransitions (hs : s.net.Consistent) :
    ∃ l, Asks runParallelTransitions s l := by
  refine Asks.get (Asks.bind_pure (merging_transitions.asks_groups ?_ hs
    (twinGroups_parallelTransitions hs.mirrored)) fun _ => s.accepting.parallelTransitions.length)
  exact fun _ _ _ hne h => .parallelTransitions hne h

theorem asks_runParallelPlaces (hs : s.net.Consistent) : ∃ l, Asks runParallelPlaces s l := by
  refine Asks.get (Asks.bind_pure (merging_livePlaces.asks_groups ?_ hs
    (twinGroups_parallelPlaces hs.mirrored)) fun _ => s.accepting.parallelPlaces.length)
  exact fun _ _ _ hne h => .parallelPlaces hne (h.imp fun _ _ _ hd => hd.2.2)

theorem asks_runResetsAt (hs : s.net.Consistent) (t : TransitionId) :
    ∃ l, Asks (fun checker => runResetsAt checker t) s l := by
  refine Asks.get (Asks.bind_pure (asks_forM
    (C := fun places s => s.net.Consistent ∧ NeedlessAt s.accepting t places) ?_
    ⟨hs, needlessAt_needlessResets hs.mirrored t⟩) fun _ => (s.accepting.needlessResets t).length)
  rintro p places s ⟨hs, hneedless⟩
  obtain ⟨n, hok, hreset, hin, hgone, hrest⟩ := hneedless.exists_head hs
  have hstep : s.accepting.Rewritten (.resetArcRemoved (s.net.placeName p) (s.net.transitionName t))
      ⟨n, s.accepting.initial, s.accepting.final⟩ := .reset hreset hin hgone
  refine ⟨asks_performOnce hs hok hstep, (ends_performOnce hs (.refl s) hok hstep).imp ?_
    fun _ _ _ => trivial⟩
  rintro _ s' ⟨hs', h'⟩
  exact ⟨h'.consistent hs, hs' ▸ hrest⟩

theorem asks_runResets (hs : s.net.Consistent) : ∃ l, Asks runResets s l := by
  refine Asks.get (asks_foldlM (C := fun s => s.net.Consistent) (fun total t s hs => ⟨?_, ?_⟩) hs)
  · exact Asks.bind_pure (asks_runResetsAt hs t) (total + ·)
  · exact Ends.bind ((ends_runResetsAt hs (.refl s) t).imp (fun _ _ h' => h'.consistent hs)
      fun _ _ _ => trivial)

/-! ## The whole reduction -/

theorem asks_runRule (hs : s.net.Consistent) (rule : Rule) :
    ∃ l, Asks (fun checker => runRule checker rule) s l := by
  unfold runRule
  refine Asks.get ?_
  cases rule with
  | fst => exact seriesTransitions_fits.asks_run hs _
  | fsp => exact seriesPlaces_fits.asks_run hs _
  | fpt => exact asks_runParallelTransitions hs
  | fpp => exact asks_runParallelPlaces hs
  | elt => exact selfLoopTransitions_fits.asks_run hs _
  | elp => exact selfLoopPlaces_fits.asks_run hs _
  | a => exact silentSteps_fits.asks_run hs _
  | r => exact asks_runResets hs

variable {options : ReductionOptions}

theorem asks_turn (hs : s.net.Consistent) (counts : Counts) (rule : Rule) :
    (∃ l, Asks (fun checker => turn { options with checker } counts rule) s l) ∧
      Ends (fun _ s' => s'.net.Consistent) (fun _ _ => True)
        (turn { options with checker := none } counts rule s) := by
  cases hruns : options.runs s.size rule with
  | false =>
    have hstay : ∀ checker, turn { options with checker } counts rule s = .ok counts s :=
      fun _ => turn_of_not_runs hruns
    rw [hstay]
    exact ⟨⟨[], (Asks.pure counts s).congr hstay⟩, hs⟩
  | true =>
    have hgo : ∀ checker, turn { options with checker } counts rule s =
        (runRule checker rule >>= fun k => Pure.pure (counts.add rule k)) s := fun checker => by
      rw [turn, get_bind]
      exact congrFun (if_pos hruns) s
    obtain ⟨l, hl⟩ := Asks.bind_pure (asks_runRule hs rule) (counts.add rule)
    rw [hgo]
    exact ⟨⟨l, hl.congr hgo⟩, Ends.bind ((ends_runRule hs (.refl s) rule).imp
      (fun _ _ h' => h'.consistent hs) fun _ _ _ => trivial)⟩

theorem asks_pass (options : ReductionOptions) (hs : s.net.Consistent) (applied : List (Rule × Nat)) :
    ∃ l, Asks (fun checker => pass { options with checker } applied) s l :=
  asks_foldlM (C := fun s => s.net.Consistent) (fun counts rule _ hs => asks_turn hs counts rule) hs

theorem asks_passes_of_goOn {made : Nat} {applied : List (Rule × Nat)} (hs : s.net.Consistent)
    (h : ∀ counts s', pass { options with checker := none } applied s = .ok counts s' →
      ∃ l, Asks (fun checker => goOn { options with checker } made counts) s' l) :
    ∃ l, Asks (fun checker => passes { options with checker } made applied) s l := by
  obtain ⟨_, hpass⟩ := asks_pass options hs applied
  obtain ⟨l, hl⟩ := hpass.bind h
  exact ⟨l, hl.congr fun _ => passes_eq _ _ _ _⟩

theorem asks_passes (options : ReductionOptions) (hs : s.net.Consistent) (made : Nat)
    (applied : List (Rule × Nat)) :
    ∃ l, Asks (fun checker => passes { options with checker } made applied) s l := by
  -- along the passes of the run without a checker
  induction made, applied, s using passes_induction { options with checker := none } with
  | error made applied s e s₁ hp =>
    exact asks_passes_of_goOn hs fun counts s' hok => nomatch hp.symm.trans hok
  | idle made applied s counts s₁ hp hidle =>
    refine asks_passes_of_goOn hs fun counts' s' hok => ?_
    cases hp.symm.trans hok
    exact ⟨[], (Asks.pure (made + 1, counts.applied) s₁).congr fun _ => if_pos hidle⟩
  | again made applied s counts s₁ hp happlied ih =>
    refine asks_passes_of_goOn hs fun counts' s' hok => ?_
    cases hp.symm.trans hok
    have hends := ends_pass { options with checker := none } applied hs (.refl s)
    rw [hp] at hends
    obtain ⟨l, hl⟩ := ih (Rewrites.consistent hends hs)
    exact ⟨l, hl.congr fun _ => if_neg happlied⟩

/-- For each consistent net there is one list of steps and states that `complete` shows to whatever
checker it is given. -/
theorem asks_complete (options : ReductionOptions) (hs : s.net.Consistent) :
    ∃ l, Asks (fun checker => complete { options with checker }) s l := by
  obtain ⟨asked, hasked⟩ := asks_passes options hs 0 []
  unfold complete
  refine hasked.bind fun x s' _ => Asks.get ?_
  cases hcheck : s'.net.checkConsistency with
  | ok u => exact ⟨[], Asks.pure _ s'⟩
  | error e => exact ⟨[], Asks.error (.net e) s' fun _ => rfl⟩

end ProcessNet.Reduction
