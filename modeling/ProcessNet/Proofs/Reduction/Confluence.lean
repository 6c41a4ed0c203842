/-
When the order of anchors does not matter to a reduction. A turn applies its rule until it matches nowhere, so
it is one of the ways that steps of the rule can go; if these converge, isomorphic nets are left isomorphic by
every turn, hence by every pass, and both reductions make as many passes. Steps converge unless matches clash,
which those of three rules may, each in its own way: `FST` where post-sets overlap, `FSP` where two places share
producers, `A` where a silent step is a detour of a shorter way or leads round in a circle.
-/
import ProcessNet.Proofs.Net.History
import ProcessNet.Proofs.Reduction.Exhaustion
import ProcessNet.Proofs.Reduction.Unforked

namespace ProcessNet

open AcceptingNet
open Relation (ReflTransGen)

/-! ## Turns as steps -/

namespace Reduction

variable {checker : Option Checker} {a : AcceptingNet} {s s' : Reduction}

/-- The reduction ended with an objection of the checker. -/
def Rejected (checker : Option Checker) (e : ReductionError) : Prop :=
  checker ≠ none ∧ ∃ reason, e = .rejected reason

/-- A turn that starts from `a` stops early: the checker turns a net down, or steps lead to where the
rule cannot be applied. -/
def Fails (checker : Option Checker) (Step : AcceptingNet → AcceptingNet → Prop)
    (Stuck : AcceptingNet → Prop) (a : AcceptingNet) (e : ReductionError) (_ : Reduction) : Prop :=
  Rejected checker e ∨
    (e = .net (.fault .countOverflow) ∧ ∃ a', ReflTransGen Step a a' ∧ Stuck a')

theorem ends_commit_of_smaller {before : NetSize} {step : ReductionStep}
    (h : s.size.Smaller before) : Ends (fun _ s' => s'.accepting = s.accepting)
      (fun e _ => Rejected checker e) (commit checker before step s) := by
  unfold commit
  rw [if_pos h]
  cases hobj : objection? checker step.rule s.net with
  | none => exact rfl
  | some e =>
    unfold objection? at hobj
    cases checker with
    | none => cases hobj
    | some check =>
      refine ⟨nofun, ?_⟩
      dsimp only at hobj
      split at hobj
      · cases hobj
      · cases hobj
        exact ⟨_, rfl⟩

/-- `perform` at an anchor is a step of the rule, unless the checker turns it down or `apply` gets stuck. -/
theorem LocalRule.Fits.ends_leads {ι : Type} {r : LocalRule ι} (h : r.Fits)
    {Stuck : AcceptingNet → Prop} {i : ι} {m : r.Match} (hs : s.net.Consistent)
    (hm : r.match? s.accepting i = some m)
    (hstuck : ∀ e s', r.apply i m s = .error e s' →
      e = .net (.fault .countOverflow) ∧ Stuck s.accepting) :
    Ends (fun _ s' => r.Leads i s.accepting s'.accepting)
      (Fails checker r.Step Stuck s.accepting) (r.perform checker i m s) := by
  unfold LocalRule.perform
  rw [get_bind]
  refine Ends.bind ?_
  have hfits := h s i m hs hm
  cases happly : r.apply i m s with
  | error e s₁ =>
    obtain ⟨he, hst⟩ := hstuck e s₁ happly
    exact .inr ⟨he, s.accepting, .refl, hst⟩
  | ok l s₁ =>
    rw [happly] at hfits
    refine Ends.bind ((ends_commit_of_smaller (hfits.1.lighter hs.mirrored).smaller).imp ?_
      fun _ _ he => .inl he)
    rintro _ s₂ hs₂
    exact ⟨m, l, s.steps, s₁.steps, hm, hs₂ ▸ happly⟩

/-- `drain` empties the worklist by steps of the rule. -/
theorem LocalRule.Fits.ends_steps {ι : Type} [DecidableEq ι] {r : LocalRule ι} (h : r.Fits)
    {Stuck : AcceptingNet → Prop} (hblind : Blind r.Step Stuck)
    (hstuck : ∀ s i m e s', s.accepting.WellFormed → r.match? s.accepting i = some m →
      r.apply i m s = .error e s' → e = .net (.fault .countOverflow) ∧ Stuck s.accepting)
    (queue : List ι) (applied : Nat) (ha : a.WellFormed) (hsteps : ReflTransGen r.Step a s.accepting) :
    Ends (fun _ s' => ReflTransGen r.Step a s'.accepting) (Fails checker r.Step Stuck a)
      (Reduction.drain r checker queue applied s) := by
  have hperform : ∀ {s i m}, ReflTransGen r.Step a s.accepting → r.match? s.accepting i = some m →
      Ends (fun _ s' => ReflTransGen r.Step a s'.accepting) (Fails checker r.Step Stuck a)
        (r.perform checker i m s) := by
    intro s i m hsteps hm
    have hwf := hblind.wellFormed_of_steps ha hsteps
    refine (h.ends_leads hwf.consistent hm fun e s' he => hstuck s i m e s' hwf hm he).imp
      (fun _ _ hleads => hsteps.tail ⟨i, hleads⟩) ?_
    rintro e _ (he | ⟨he, a', ha', hst⟩)
    · exact .inl he
    · exact .inr ⟨he, a', hsteps.trans ha', hst⟩
  induction queue, applied, s using drain_induction r checker with
  | nil applied s =>
    rw [drain_nil]
    exact hsteps
  | idle applied s i queue hm ih =>
    rw [drain_cons_of_none hm]
    exact ih hsteps
  | error applied s i queue m hm e s' hp =>
    have hends := hperform hsteps hm
    rw [hp] at hends
    rw [drain_cons_of_error hm hp]
    exact hends
  | ok applied s i queue m hm neighbours s' hp ih =>
    have hends := hperform hsteps hm
    rw [hp] at hends
    rw [drain_cons_of_ok hm hp]
    exact ih hends

/-- `performOnce` commits a change that makes the net smaller, unless the checker turns it down. -/
theorem ends_performOnce_of_smaller {describe : Net → ReductionStep} {change : ReductionM Unit}
    {a' : AcceptingNet} (hchange : change s = .ok () { s with accepting := a' })
    (hsmaller : a'.net.measure.Smaller s.net.measure) :
    Ends (fun _ s' => s'.accepting = a') (fun e _ => Rejected checker e)
      (performOnce checker describe change s) := by
  unfold performOnce
  rw [get_bind, bind_of_ok hchange]
  exact ends_commit_of_smaller hsmaller

/-- The members of a group are dropped step by step. -/
theorem steps_of_dropped {ι : Type} {Drop : ι → ι → AcceptingNet → AcceptingNet → Prop} {k : ι}
    {l : List ι} {a' : AcceptingNet} (h : Dropped (Drop k) l a a') :
    ReflTransGen (fun a a' => ∃ k d, Drop k d a a') a a' := by
  induction h with
  | nil => exact .refl
  | cons hd _ ih => exact ih.head ⟨k, _, hd⟩

/-- Groups of twins are merged step by step, as `FPT` and `FPP` do. -/
theorem Merging.ends_steps {ι : Type} {drop : ι → ReductionM Unit}
    {Twins : AcceptingNet → ι → List ι → Prop} {Drop : ι → ι → AcceptingNet → AcceptingNet → Prop}
    (h : Merging drop Twins Drop) (hlighter : ∀ k d a a', Drop k d a a' → Lighter a a')
    {describe : Duplicates ι → Net → ReductionStep} {groups : List (Duplicates ι)}
    (hs : s.net.Consistent) (hgroups : TwinGroups Twins s.accepting groups) :
    Ends (fun _ s' => ReflTransGen (fun a a' => ∃ k d, Drop k d a a') s.accepting s'.accepting)
      (fun e _ => Rejected checker e)
      ((groups.forM fun m => performOnce checker (describe m) (m.removed.forM drop)) s) := by
  refine (Ends.forM (C := fun groups s' =>
    ReflTransGen (fun a a' => ∃ k d, Drop k d a a') s.accepting s'.accepting ∧ s'.net.Consistent ∧
    TwinGroups Twins s'.accepting groups) ?_ ⟨.refl, hs, hgroups⟩).imp (fun _ _ hc => hc.1)
    fun _ _ he => he
  rintro m groups s₁ ⟨hsteps, hs₁, hgroups⟩
  obtain ⟨a', hok, hne, hdropped, hrest⟩ := h.exists_head hs₁ hgroups
  have hlight := hdropped.lighter (hlighter m.kept) hne
  refine (ends_performOnce_of_smaller hok hlight.smaller).imp ?_ fun _ _ he => he
  rintro _ s₂ rfl
  exact ⟨hsteps.trans (steps_of_dropped hdropped), hlight.consistent, hrest⟩

theorem ends_runParallelTransitions_steps (hs : s.net.Consistent) :
    Ends (fun _ s' => ReflTransGen TwinTransitionDropped s.accepting s'.accepting)
      (fun e _ => Rejected checker e) (runParallelTransitions checker s) := by
  unfold runParallelTransitions
  rw [get_bind]
  exact Ends.bind ((merging_transitions.ends_steps (fun _ _ _ _ h => h.lighter) hs
    (twinGroups_parallelTransitions hs.mirrored)).imp (fun _ _ h => h) fun _ _ he => he)

theorem ends_runParallelPlaces_steps (hs : s.net.Consistent) :
    Ends (fun _ s' => ReflTransGen TwinPlaceDropped s.accepting s'.accepting)
      (fun e _ => Rejected checker e) (runParallelPlaces checker s) := by
  unfold runParallelPlaces
  rw [get_bind]
  exact Ends.bind ((merging_livePlaces.ends_steps (fun _ _ _ _ h => h.2.2.lighter) hs
    (twinGroups_parallelPlaces hs.mirrored)).imp (fun _ _ h => h) fun _ _ he => he)

theorem ends_runResetsAt_steps (hs : s.net.Consistent) (t : TransitionId) :
    Ends (fun _ s' => ReflTransGen NeedlessResetDropped s.accepting s'.accepting ∧ s'.net.Consistent)
      (fun e _ => Rejected checker e) (runResetsAt checker t s) := by
  unfold runResetsAt
  rw [get_bind]
  refine Ends.bind ((Ends.forM (C := fun places s' =>
    (ReflTransGen NeedlessResetDropped s.accepting s'.accepting ∧ s'.net.Consistent) ∧
      NeedlessAt s'.accepting t places) ?_
    ⟨⟨.refl, hs⟩, needlessAt_needlessResets hs.mirrored t⟩).imp
    (fun _ _ hc => ⟨hc.1.1, hc.1.2⟩) fun _ _ he => he)
  rintro p places s₁ ⟨⟨hsteps, hs₁⟩, hneedless⟩
  obtain ⟨n, hok, hreset, hin, hgone, hrest⟩ := hneedless.exists_head hs₁
  refine (ends_performOnce_of_smaller hok hgone.smaller).imp ?_ fun _ _ he => he
  rintro _ s₂ hs₂
  have hstep : NeedlessResetDropped s₁.accepting s₂.accepting :=
    ⟨p, t, hreset, hin, hs₂ ▸ hgone, hs₂ ▸ rfl, hs₂ ▸ rfl⟩
  exact ⟨⟨hsteps.tail hstep, by rw [net, hs₂]; exact hgone.consistent⟩, hs₂ ▸ hrest⟩

theorem ends_runResets_steps (hs : s.net.Consistent) :
    Ends (fun _ s' => ReflTransGen NeedlessResetDropped s.accepting s'.accepting)
      (fun e _ => Rejected checker e) (runResets checker s) := by
  unfold runResets
  rw [get_bind]
  refine (Ends.foldlM (C := fun _ _ s' =>
    ReflTransGen NeedlessResetDropped s.accepting s'.accepting ∧ s'.net.Consistent)
    (fun t l total s₁ h => ?_) ⟨.refl, hs⟩).imp (fun _ _ h => h.1) fun _ _ he => he
  exact Ends.bind ((ends_runResetsAt_steps h.2 t).imp (fun _ _ h' => ⟨h.1.trans h'.1, h'.2⟩)
    fun _ _ he => he)

/-- `fuseSeriesPlaces` gets stuck just where it fails. -/
theorem stuck_of_fuseSeriesPlaces {t : TransitionId} {m : SeriesPlaces} {e : ReductionError}
    (hs : s.accepting.WellFormed) (hm : s.accepting.seriesPlacesAt? t = some m)
    (h : fuseSeriesPlaces t m s = .error e s') :
    e = .net (.fault .countOverflow) ∧ seriesPlaces.Stuck s.accepting := by
  have hsite := (seriesPlacesAt?_eq_some_iff hs.consistent.mirrored).1 hm
  have hends := ends_fuseSeriesPlaces (s := s) hs.consistent hm
  rw [h] at hends
  obtain ⟨he, _, _, _, hmove⟩ := hends
  refine ⟨he, (fusing_seriesPlaces.stuck_iff hs).2 ⟨m.first, t, ⟨m.second, hsite⟩, ?_⟩⟩
  intro hroom
  obtain ⟨_, hmove'⟩ := (Marking.exists_moveAll_iff hsite.ne.symm).2
    (hroom m.second ((hsite.output m.second).2 rfl))
  exact nomatch hmove.symm.trans hmove'

/-- `runRule` takes steps of its rule, until it fails if it does. -/
theorem ends_runRule_steps (hs : s.accepting.WellFormed) (rule : Rule) :
    Ends (fun _ s' => ReflTransGen rule.Step s.accepting s'.accepting)
      (Fails checker rule.Step rule.Stuck s.accepting) (runRule checker rule s) := by
  have hcons := hs.consistent
  unfold runRule
  rw [get_bind]
  cases rule with
  | fst =>
    refine seriesTransitions_fits.ends_steps fusing_seriesTransitions.blind
      (fun s i m e s' hs hm happly => ?_) _ 0 hs .refl
    obtain ⟨l, n, hok, _⟩ := exists_fuseSeriesTransitions (s := s) hs.consistent hm
    exact nomatch hok.symm.trans happly
  | fsp =>
    exact seriesPlaces_fits.ends_steps fusing_seriesPlaces.blind
      (fun s i m e s' hs hm happly => stuck_of_fuseSeriesPlaces hs hm happly) _ 0 hs .refl
  | fpt =>
    exact (ends_runParallelTransitions_steps hcons).imp (fun _ _ h => h) fun _ _ he => .inl he
  | fpp => exact (ends_runParallelPlaces_steps hcons).imp (fun _ _ h => h) fun _ _ he => .inl he
  | elt =>
    refine selfLoopTransitions_fits.ends_steps blind_selfLoopTransitions
      (fun s i m e s' hs hm happly => ?_) _ 0 hs .refl
    obtain ⟨l, n, hok, _⟩ := exists_removeSelfLoopTransition (s := s) hs.consistent hm
    exact nomatch hok.symm.trans happly
  | elp =>
    refine selfLoopPlaces_fits.ends_steps blind_selfLoopPlaces
      (fun s i m e s' hs hm happly => ?_) _ 0 hs .refl
    obtain ⟨n, hok, _⟩ := exists_removeSelfLoopPlace (s := s) hs.consistent
      (selfLoopPlaces_match?_ne_none.1 (Option.ne_none_iff_exists'.2 ⟨m, hm⟩))
    exact nomatch hok.symm.trans happly
  | a =>
    refine silentSteps_fits.ends_steps fusing_silentSteps.blind
      (fun s i m e s' hs hm happly => ?_) _ 0 hs .refl
    obtain ⟨l, n, hok, _⟩ := exists_skipSilentStep (s := s) hs.consistent hm
    exact nomatch hok.symm.trans happly
  | r => exact (ends_runResets_steps hcons).imp (fun _ _ h => h) fun _ _ he => .inl he

/-! ## Two reductions side by side -/

/-- Either the checker turned down one of two reductions, or both overflow, or both succeed, and then
what they answer and their states are related. -/
inductive Agree (checker : Option Checker) {α : Type} (R : α → Reduction → α → Reduction → Prop) :
    EStateM.Result ReductionError Reduction α → EStateM.Result ReductionError Reduction α → Prop
  | left {e : ReductionError} {s : Reduction} {r : EStateM.Result ReductionError Reduction α}
    (h : Rejected checker e) : Agree checker R (.error e s) r
  | right {e : ReductionError} {s : Reduction} {r : EStateM.Result ReductionError Reduction α}
    (h : Rejected checker e) : Agree checker R r (.error e s)
  | overflow (s s' : Reduction) : Agree checker R (.error (.net (.fault .countOverflow)) s)
    (.error (.net (.fault .countOverflow)) s')
  | ok {x x' : α} {s s' : Reduction} (h : R x s x' s') : Agree checker R (.ok x s) (.ok x' s')

namespace Agree

variable {α β : Type} {R : α → Reduction → α → Reduction → Prop}
  {Q : β → Reduction → β → Reduction → Prop}

/-- What two steps agree on, the ways to go on from there may rely on. -/
theorem bind {m m' : ReductionM α} {f f' : α → ReductionM β} (h : Agree checker R (m s) (m' s'))
    (hnext : ∀ {x x' s₁ s₁'}, m s = .ok x s₁ → m' s' = .ok x' s₁' → R x s₁ x' s₁' →
      Agree checker Q (f x s₁) (f' x' s₁')) :
    Agree checker Q ((m >>= f) s) ((m' >>= f') s') := by
  generalize hm : m s = r at h
  generalize hm' : m' s' = r' at h
  cases h with
  | left h =>
    rw [bind_of_error hm]
    exact .left h
  | right h =>
    rw [bind_of_error hm']
    exact .right h
  | overflow s₁ s₁' =>
    rw [bind_of_error hm, bind_of_error hm']
    exact .overflow s₁ s₁'
  | ok h =>
    rw [bind_of_ok hm, bind_of_ok hm']
    exact hnext hm hm' h

end Agree

/-- Both reductions have come to nets that differ in ids only. -/
def Alike (s s' : Reduction) : Prop := Similar s.accepting s'.accepting

theorem Alike.size_eq (h : Alike s s') : s'.size = s.size := h.measure_eq

/-- `runRule` does the same to nets that differ in ids only, if no two matches of the rule clash. -/
theorem agree_runRule (checker : Option Checker) {rule : Rule} (h : Alike s s') (hsound : s.accepting.initial.Storable ∧
    ¬ s.accepting.Contested rule) :
    Agree checker (fun _ s₁ _ s₁' => Alike s₁ s₁') (runRule checker rule s)
      (runRule checker rule s') := by
  have hconv := convergent rule
  have hends : Ends _ (Fails checker _ _ _) _ := ends_runRule_steps h.left rule
  have hends' : Ends _ (Fails checker _ _ _) _ := ends_runRule_steps h.right rule
  have hleaves : Leaves _ (runRule checker rule s) := leaves_runRule h.left.consistent rule
  have hleaves' : Leaves _ (runRule checker rule s') := leaves_runRule h.right.consistent rule
  generalize runRule checker rule s = r at hends hleaves
  generalize runRule checker rule s' = r' at hends' hleaves'
  have hfinished : ∀ {a b}, a.WellFormed → ReflTransGen rule.Step a b → ¬ b.Matches rule →
      Finished rule.Step rule.Stuck b := fun ha hsteps =>
    finished_of_not_matches (hconv.wellFormed_of_steps ha hsteps)
  cases r with
  | ok k s₁ =>
    have hend := hfinished h.left hends hleaves
    cases r' with
    | ok k' s₁' =>
      exact .ok (hconv.similar_of_finished h hsound hends hend hends'
        (hfinished h.right hends' hleaves'))
    | error e s₁' =>
      rcases hends' with hrejected | ⟨_, b, hsteps, hstuck⟩
      · exact .right hrejected
      · exact absurd hstuck (hconv.not_stuck_of_similar h hsound hends hend hsteps)
  | error e s₁ =>
    rcases hends with hrejected | ⟨rfl, b, hsteps, hstuck⟩
    · exact .left hrejected
    · cases r' with
      | ok k' s₁' =>
        exact absurd hstuck (hconv.not_stuck_of_finished h hsound hends'
          (hfinished h.right hends' hleaves') hsteps)
      | error e' s₁' =>
        rcases hends' with hrejected | ⟨rfl, _⟩
        · exact .right hrejected
        · exact .overflow s₁ s₁'

/-- The states that the turns of a reduction from `s₀` start from, each with what was counted so far and
with the rules that still have their turn in the pass. -/
inductive Reached (options : ReductionOptions) (s₀ : Reduction) :
    Counts → List Rule → Reduction → Prop
  | start : Reached options s₀ ⟨[], 0⟩ Rule.order s₀
  | turn {counts counts' : Counts} {s s' : Reduction} {rule : Rule} {rest : List Rule}
    (h : Reached options s₀ counts (rule :: rest) s)
    (hturn : turn options counts rule s = .ok counts' s') : Reached options s₀ counts' rest s'
  | again {counts : Counts} {s : Reduction} (h : Reached options s₀ counts [] s)
    (happlied : counts.inPass ≠ 0) : Reached options s₀ ⟨counts.applied, 0⟩ Rule.order s

end Reduction

namespace AcceptingNet

open Reduction

variable {options : ReductionOptions} {a : AcceptingNet} {counts : Counts} {s : Reduction}
  {rest : List Rule}

/-- In no turn of `reduce` the rule leads to where two of its matches clash. -/
def Uncontested (a : AcceptingNet) (options : ReductionOptions) : Prop :=
  ∀ counts rule rest s, Reduction.Reached options { accepting := a } counts (rule :: rest) s →
    options.runs s.size rule → ¬ s.accepting.Contested rule

theorem holds_of_steps {C : AcceptingNet → Prop} {rule : Rule} {b b' : AcceptingNet}
    (hstep : ∀ {a a'} {rule : Rule}, a.WellFormed → C a → rule.Step a a' → C a')
    (hb : b.WellFormed ∧ C b) (hsteps : ReflTransGen rule.Step b b') : b'.WellFormed ∧ C b' := by
  induction hsteps with
  | refl => exact hb
  | tail _ hlast ih => exact ⟨(convergent rule).wellFormed ih.1 hlast, hstep ih.1 ih.2 hlast⟩

/-- What steps of the rules keep is kept up to each turn of `reduce`. -/
theorem holds_of_reached {C : AcceptingNet → Prop}
    (hstep : ∀ {a a'} {rule : Rule}, a.WellFormed → C a → rule.Step a a' → C a')
    (ha : a.WellFormed) (h : C a) (hreached : Reached options { accepting := a } counts rest s) :
    s.accepting.WellFormed ∧ C s.accepting := by
  induction hreached with
  | start => exact ⟨ha, h⟩
  | again _ _ ih => exact ih
  | @turn counts _ s s' rule _ _ hturn ih =>
    cases hruns : options.runs s.size rule with
    | false =>
      rw [turn_of_not_runs hruns] at hturn
      cases hturn
      exact ih
    | true =>
      have hends : Ends _ (Fails options.checker _ _ _) _ := ends_runRule_steps ih.1 rule
      cases hrun : runRule options.checker rule s with
      | ok k s₁ =>
        rw [turn_of_runs hruns hrun] at hturn
        cases hturn
        rw [hrun] at hends
        exact holds_of_steps hstep ih hends
      | error e s₁ =>
        rw [turn, get_bind, if_pos hruns, bind_of_error hrun] at hturn
        cases hturn

/-- Where no transition puts tokens into two places, no two matches clash in any turn. -/
theorem Plain.uncontested (h : a.Plain) : a.Uncontested options :=
  fun _ rule _ _ hreached _ => (holds_of_reached (C := Plain) (fun _ hb hstep => hb.of_step hstep)
    h.wellFormed h hreached).2.not_contested rule

end AcceptingNet

namespace Reduction

variable {checker : Option Checker} {options : ReductionOptions} {a : AcceptingNet}
  {s s' : Reduction}

/-- The reductions are at the same point, the first one as given. -/
def AlikeAt (options : ReductionOptions) (a : AcceptingNet) (rest : List Rule) (counts : Counts)
    (s s' : Reduction) : Prop :=
  Reached options { accepting := a } counts rest s ∧ Alike s s'

/-- A well-formed net with counts that can be stored, in whose reduction no two matches clash. -/
structure Calm (options : ReductionOptions) (a : AcceptingNet) : Prop where
  wellFormed : a.WellFormed
  storable : a.initial.Storable
  uncontested : a.Uncontested options

theorem Calm.sound (ha : Calm options a) {rule : Rule} {rest : List Rule} {counts : Counts}
    (h : Reached options { accepting := a } counts (rule :: rest) s) (hruns : options.runs s.size rule) :
    s.accepting.initial.Storable ∧ ¬ s.accepting.Contested rule :=
  ⟨(holds_of_reached (C := fun b => b.initial.Storable) storable_of_step ha.wellFormed ha.storable h).2,
    ha.uncontested _ _ _ _ h hruns⟩

theorem agree_turn (ha : Calm options a) {rule : Rule} {rest : List Rule} {counts counts' : Counts}
    (h : AlikeAt options a (rule :: rest) counts s s') :
    Agree options.checker (fun counts s _ s' => AlikeAt options a rest counts s s')
      (turn options counts rule s) (turn options counts' rule s') := by
  obtain ⟨hreached, halike⟩ := h
  cases hruns : options.runs s.size rule with
  | false =>
    have hstay : turn options counts rule s = .ok counts s := turn_of_not_runs hruns
    rw [hstay, turn_of_not_runs (by rw [halike.size_eq, hruns])]
    exact .ok ⟨hreached.turn hstay, halike⟩
  | true =>
    have hrun := agree_runRule options.checker halike (ha.sound hreached hruns)
    unfold turn
    rw [get_bind, get_bind, halike.size_eq, hruns]
    refine hrun.bind fun {k _ s₁ _} hok _ halike₁ => ?_
    have hturn : turn options counts rule s = .ok (counts.add rule k) s₁ := turn_of_runs hruns hok
    exact .ok ⟨hreached.turn hturn, halike₁⟩

theorem agree_turns (ha : Calm options a) {rest : List Rule} {counts counts' : Counts}
    (h : AlikeAt options a rest counts s s') :
    Agree options.checker (fun counts s _ s' => AlikeAt options a [] counts s s')
      (rest.foldlM (turn options) counts s) (rest.foldlM (turn options) counts' s') := by
  induction rest generalizing counts counts' s s' with
  | nil => exact .ok h
  | cons rule rest ih =>
    rw [List.foldlM_cons, List.foldlM_cons]
    exact (agree_turn ha h).bind fun _ _ h₁ => ih h₁

/-- Something was applied, so that `passes` goes on, just if the net became smaller. -/
theorem Shrinks.applied_iff {k : Nat} (h : Shrinks 0 k s s') : k ≠ 0 ↔ s'.size.Smaller s.size := by
  refine ⟨h.smaller, fun hsmaller hk => ?_⟩
  rcases h with ⟨_, rfl⟩ | ⟨hpos, _⟩
  · exact NetSize.smaller_irrefl _ hsmaller
  · exact absurd hk (Nat.ne_of_gt hpos)

theorem agree_passes (ha : Calm options a) (made made' : Nat) (applied applied' : List (Rule × Nat))
    (h : AlikeAt options a Rule.order ⟨applied, 0⟩ s s') :
    Agree options.checker (fun _ s _ s' => Alike s s') (passes options made applied s)
      (passes options made' applied' s') := by
  -- along the passes of the first reduction; the second one makes as many, since the sizes are the same
  induction made, applied, s using passes_induction options generalizing made' applied' s' with
  | error made applied s e s₁ hp =>
    rw [passes_eq, passes_eq]
    refine (agree_turns ha h).bind fun hok _ _ => ?_
    cases hp.symm.trans hok
  | idle made applied s counts s₁ hp hidle =>
    rw [passes_eq, passes_eq]
    refine (agree_turns ha h).bind fun hok hok' h₁ => ?_
    cases hp.symm.trans hok
    have hidle' := (shrinks_pass hok').applied_iff
    rw [h₁.2.size_eq, h.2.size_eq, ← (shrinks_pass hp).applied_iff] at hidle'
    unfold goOn
    rw [if_pos hidle, if_pos (not_not.1 fun hk => hidle'.1 hk hidle)]
    exact .ok h₁.2
  | again made applied s counts s₁ hp happlied ih =>
    rw [passes_eq, passes_eq]
    refine (agree_turns ha h).bind fun hok hok' h₁ => ?_
    cases hp.symm.trans hok
    have happlied' := (shrinks_pass hok').applied_iff
    rw [h₁.2.size_eq, h.2.size_eq, ← (shrinks_pass hp).applied_iff] at happlied'
    unfold goOn
    rw [if_neg happlied, if_neg (happlied'.2 happlied)]
    exact ih _ _ ⟨.again h₁.1 happlied, h₁.2⟩

theorem agree_complete {b : AcceptingNet} (hab : Similar a b) (ha : Calm options a) :
    Agree options.checker (fun _ s _ s' => Alike s s') (complete options { accepting := a })
      (complete options { accepting := b }) := by
  have hstart : AlikeAt options a Rule.order ⟨[], 0⟩ { accepting := a } { accepting := b } :=
    ⟨.start, hab⟩
  have hcheck : ∀ {s : Reduction}, s.net.Consistent → s.net.checkConsistency = .ok () := fun hs =>
    (Net.consistent_iff_checkConsistency hs.mirrored.nodup).1 hs
  unfold complete
  refine (agree_passes ha 0 0 [] [] hstart).bind fun _ _ h => ?_
  dsimp only
  rw [get_bind, get_bind, hcheck h.left.consistent, hcheck h.right.consistent]
  exact .ok h

end Reduction

namespace AcceptingNet

open Reduction

/-- `reduce` leaves nets that differ in ids only if it is given such nets and no two matches clash in any turn
on the first one; unless the checker turns down a net of one of them, or a count overflows in both. -/
theorem reduce_isomorphic_of_uncontested (a b : AcceptingNet) (options : ReductionOptions)
    (ha : a.WellFormed) (hstore : a.initial.Storable) (hb : b.WellFormed) (hab : Isomorphic a b)
    (h : a.Uncontested options) :
    (∃ report report', (a.reduce options).report = .ok report ∧
      (b.reduce options).report = .ok report' ∧
      Isomorphic (a.reduce options).accepting (b.reduce options).accepting) ∨
    ((a.reduce options).report = .error (.net (.fault .countOverflow)) ∧
      (b.reduce options).report = .error (.net (.fault .countOverflow))) ∨
    (options.checker ≠ none ∧ ∃ reason, (a.reduce options).report = .error (.rejected reason) ∨
      (b.reduce options).report = .error (.rejected reason)) := by
  have hagree := agree_complete (hab.similar ha hb) ⟨ha, hstore, h⟩
  generalize hrun : complete options { accepting := a } = r at hagree
  generalize hrun' : complete options { accepting := b } = r' at hagree
  cases hagree with
  | left hrejected =>
    obtain ⟨hchecker, reason, rfl⟩ := hrejected
    rw [reduce_of_error hrun]
    exact .inr (.inr ⟨hchecker, reason, .inl rfl⟩)
  | right hrejected =>
    obtain ⟨hchecker, reason, rfl⟩ := hrejected
    rw [reduce_of_error hrun']
    exact .inr (.inr ⟨hchecker, reason, .inr rfl⟩)
  | overflow s s' =>
    rw [reduce_of_error hrun, reduce_of_error hrun']
    exact .inr (.inl ⟨rfl, rfl⟩)
  | ok halike =>
    rw [reduce_of_complete hrun, reduce_of_complete hrun']
    exact .inl ⟨_, _, rfl, rfl, Similar.isomorphic halike⟩

/-- Work that is handed on in two ways at once: by the transition 1 from `p` and by the transition 2 from `q`. -/
def spread (p q : PlaceId) : AcceptingNet where
  net := ({} : Net).editedBy
    [.addPlace { name := "before" }, .addPlace { name := "one" }, .addPlace { name := "other" },
      .addPlace { name := "here" }, .addPlace { name := "there" },
      .addTransition { name := "work", label := some "work" }, .addTransition { name := "pass" },
      .addTransition { name := "forward" }, .addArc (.input ⟨0⟩ ⟨0⟩), .addArc (.output ⟨0⟩ ⟨1⟩),
      .addArc (.output ⟨0⟩ ⟨2⟩), .addArc (.input p ⟨1⟩), .addArc (.output ⟨1⟩ ⟨3⟩),
      .addArc (.input q ⟨2⟩), .addArc (.output ⟨2⟩ ⟨4⟩)]
  initial := ⟨[(⟨0⟩, 1)]⟩
  final := ⟨[(⟨3⟩, 1), (⟨4⟩, 1)]⟩

/-- The silent transitions are fused into the work, whichever of their places comes first. -/
theorem spread_reduces_alike : (spread ⟨1⟩ ⟨2⟩).Uncontested {} ∧
    Isomorphic ((spread ⟨1⟩ ⟨2⟩).reduce {}).accepting ((spread ⟨2⟩ ⟨1⟩).reduce {}).accepting := by
  have hwf : (spread ⟨1⟩ ⟨2⟩).WellFormed := wellFormed_of_checkConsistency (by decide +kernel)
    (by decide +kernel) ⟨by decide, by decide⟩ ⟨by decide, by decide⟩
  have hwf' : (spread ⟨2⟩ ⟨1⟩).WellFormed := wellFormed_of_checkConsistency (by decide +kernel)
    (by decide +kernel) ⟨by decide, by decide⟩ ⟨by decide, by decide⟩
  have hiso : Isomorphic (spread ⟨1⟩ ⟨2⟩) (spread ⟨2⟩ ⟨1⟩) := ⟨Equiv.swap ⟨1⟩ ⟨2⟩, id, by decide +kernel⟩
  have hplain : (spread ⟨1⟩ ⟨2⟩).Plain := ⟨hwf, .inr (by decide)⟩
  have hreport : ((spread ⟨1⟩ ⟨2⟩).reduce {}).report = .ok
      ⟨[.seriesTransitionsFused "one" "pass" "work",
        .seriesTransitionsFused "other" "forward" "work"], 2, [(.fst, 2)]⟩ := by cbv
  refine ⟨hplain.uncontested, ?_⟩
  rcases reduce_isomorphic_of_uncontested _ _ {} hwf (Marking.storable_of_entries (by decide)) hwf'
    hiso hplain.uncontested with ⟨_, _, _, _, h⟩ | ⟨h, _⟩ | ⟨h, _⟩
  · exact h
  · cases hreport.symm.trans h
  · cases h rfl

/-! ## Clashes -/

/-- The nets differ in ids only and are reduced to nets that do not. -/
def DependsOnOrder (options : ReductionOptions) (a b : AcceptingNet) : Prop :=
  a.WellFormed ∧ b.WellFormed ∧ Isomorphic a b ∧
    (∃ report report', (a.reduce options).report = .ok report ∧
      (b.reduce options).report = .ok report') ∧
    ¬ Isomorphic (a.reduce options).accepting (b.reduce options).accepting

/-- What `reduce` reports, and how many places it leaves. -/
def outline (r : ReductionOutcome) : Except ReductionError ReductionReport × Nat :=
  (r.report, r.accepting.net.placeIds.length)

theorem dependsOnOrder_of_outlines {options : ReductionOptions} {a b : AcceptingNet}
    {report report' : ReductionReport} {i j : Nat} (ha : a.WellFormed) (hb : b.WellFormed)
    (hab : Isomorphic a b) (h : outline (a.reduce options) = (.ok report, i))
    (h' : outline (b.reduce options) = (.ok report', j)) (hne : i ≠ j) :
    DependsOnOrder options a b := by
  obtain ⟨hreport, hi⟩ := Prod.mk.injEq .. ▸ h
  obtain ⟨hreport', hj⟩ := Prod.mk.injEq .. ▸ h'
  refine ⟨ha, hb, hab, ⟨_, _, hreport, hreport'⟩, fun hiso => hne ?_⟩
  rw [← hi, ← hj, hiso.length_placeIds]

theorem wellFormed_editedBy (es : List Net.Edit) : WellFormed ⟨({} : Net).editedBy es, ∅, ∅⟩ :=
  ⟨(Net.consistent_empty.editedBy ⟨rfl, rfl⟩ es).1, Marking.canonical_empty, Marking.canonical_empty⟩

/-- A fork into three branches that meet again: the transition 1 leads from `p` to the place 3, the
transition 2 from the place 1 to the place 4, and the transition 3 from `q` to both. -/
def fork (p q : PlaceId) : AcceptingNet where
  net := ({} : Net).editedBy
    [.addPlace { name := "left" }, .addPlace { name := "middle" }, .addPlace { name := "right" },
      .addPlace { name := "done" }, .addPlace { name := "over" },
      .addTransition { name := "fork", label := some "fork" }, .addTransition { name := "a" },
      .addTransition { name := "b" }, .addTransition { name := "c" },
      .addArc (.output ⟨0⟩ ⟨0⟩), .addArc (.output ⟨0⟩ ⟨1⟩), .addArc (.output ⟨0⟩ ⟨2⟩),
      .addArc (.input p ⟨1⟩), .addArc (.input ⟨1⟩ ⟨2⟩), .addArc (.input q ⟨3⟩),
      .addArc (.output ⟨1⟩ ⟨3⟩), .addArc (.output ⟨2⟩ ⟨4⟩), .addArc (.output ⟨3⟩ ⟨3⟩),
      .addArc (.output ⟨3⟩ ⟨4⟩)]
  initial := ∅
  final := ∅

/-- `FST`, overlapping post-sets: either the first two branches are fused into the fork, or the last one is
and then stands in the way of both. Which comes first decides how much of the fork is left. -/
theorem fork_depends_on_order : DependsOnOrder {} (fork ⟨0⟩ ⟨2⟩) (fork ⟨2⟩ ⟨0⟩) := by
  have hiso : Isomorphic (fork ⟨0⟩ ⟨2⟩) (fork ⟨2⟩ ⟨0⟩) := ⟨Equiv.swap ⟨0⟩ ⟨2⟩, id, by decide +kernel⟩
  have hfused : outline ((fork ⟨0⟩ ⟨2⟩).reduce {}) = (.ok ⟨[.seriesTransitionsFused "left" "a" "fork",
      .seriesTransitionsFused "middle" "b" "fork"], 2, [(.fst, 2)]⟩, 3) := by cbv
  have hbarred : outline ((fork ⟨2⟩ ⟨0⟩).reduce {}) =
      (.ok ⟨[.seriesTransitionsFused "left" "c" "fork"], 2, [(.fst, 1)]⟩, 4) := by cbv
  exact dependsOnOrder_of_outlines (wellFormed_editedBy _) (wellFormed_editedBy _) hiso hfused hbarred
    (by decide)

/-- Three places with two producers each, of which the last one shares one with either of the others: the
transition `t` leads from the first one, the transition 5 from the second one and the transition `u` from the
last one, all of them to the place 3. -/
def shared (t u : TransitionId) : AcceptingNet where
  net := ({} : Net).editedBy
    [.addPlace { name := "left" }, .addPlace { name := "middle" }, .addPlace { name := "right" },
      .addPlace { name := "done" }, .addTransition { name := "v", label := some "v" },
      .addTransition { name := "w", label := some "w" },
      .addTransition { name := "x", label := some "x" },
      .addTransition { name := "y", label := some "y" }, .addTransition { name := "a" },
      .addTransition { name := "b" }, .addTransition { name := "c" },
      .addArc (.output ⟨0⟩ ⟨0⟩), .addArc (.output ⟨1⟩ ⟨0⟩), .addArc (.output ⟨2⟩ ⟨1⟩),
      .addArc (.output ⟨3⟩ ⟨1⟩), .addArc (.output ⟨1⟩ ⟨2⟩), .addArc (.output ⟨2⟩ ⟨2⟩),
      .addArc (.input ⟨0⟩ t), .addArc (.input ⟨1⟩ ⟨5⟩), .addArc (.input ⟨2⟩ u),
      .addArc (.output t ⟨3⟩), .addArc (.output ⟨5⟩ ⟨3⟩), .addArc (.output u ⟨3⟩)]
  initial := ∅
  final := ∅

/-- `FSP`, shared producers: once the last place is fused with where it leads, its producers put tokens there,
and neither of the others can be. -/
theorem shared_depends_on_order : DependsOnOrder {} (shared ⟨4⟩ ⟨6⟩) (shared ⟨6⟩ ⟨4⟩) := by
  have hiso : Isomorphic (shared ⟨4⟩ ⟨6⟩) (shared ⟨6⟩ ⟨4⟩) :=
    ⟨id, Equiv.swap ⟨4⟩ ⟨6⟩, by decide +kernel⟩
  have hfused : outline ((shared ⟨4⟩ ⟨6⟩).reduce {}) = (.ok ⟨[.seriesPlacesFused "left" "a" "done",
      .seriesPlacesFused "middle" "b" "done"], 2, [(.fsp, 2)]⟩, 2) := by cbv
  have hbarred : outline ((shared ⟨6⟩ ⟨4⟩).reduce {}) =
      (.ok ⟨[.seriesPlacesFused "right" "a" "done"], 2, [(.fsp, 1)]⟩, 3) := by cbv
  exact dependsOnOrder_of_outlines (wellFormed_editedBy _) (wellFormed_editedBy _) hiso hfused hbarred
    (by decide)

/-- Two detours over the place 2: from the place 0 by `t` and from the place 1 by the transition 5 to it, from
there by `u` to the places 4 and 5; but a producer of each of the places 0 and 1 also leads right to the place
4. -/
def detours (t u : TransitionId) : AcceptingNet where
  net := ({} : Net).editedBy
    [.addPlace { name := "left" }, .addPlace { name := "right" }, .addPlace { name := "middle" },
      .addPlace { name := "side" }, .addPlace { name := "done" }, .addPlace { name := "over" },
      .addTransition { name := "v", label := some "v" },
      .addTransition { name := "w", label := some "w" },
      .addTransition { name := "x", label := some "x" },
      .addTransition { name := "y", label := some "y" }, .addTransition { name := "a" },
      .addTransition { name := "b" }, .addTransition { name := "c" },
      .addArc (.output ⟨0⟩ ⟨0⟩), .addArc (.output ⟨0⟩ ⟨4⟩), .addArc (.output ⟨1⟩ ⟨0⟩),
      .addArc (.output ⟨2⟩ ⟨1⟩), .addArc (.output ⟨2⟩ ⟨4⟩), .addArc (.output ⟨3⟩ ⟨1⟩),
      .addArc (.input ⟨0⟩ t), .addArc (.output t ⟨2⟩), .addArc (.output t ⟨3⟩),
      .addArc (.input ⟨1⟩ ⟨5⟩), .addArc (.output ⟨5⟩ ⟨2⟩), .addArc (.output ⟨5⟩ ⟨3⟩),
      .addArc (.input ⟨2⟩ u), .addArc (.output u ⟨4⟩), .addArc (.output u ⟨5⟩)]
  initial := ∅
  final := ∅

/-- `A`, shortcuts: once the step from the place in the middle is skipped, both detours lead where there is a
shorter way and are left; if they are skipped first, only the step from the middle is left. -/
theorem detours_depend_on_order :
    DependsOnOrder { abstraction := true } (detours ⟨4⟩ ⟨6⟩) (detours ⟨6⟩ ⟨4⟩) := by
  have hiso : Isomorphic (detours ⟨4⟩ ⟨6⟩) (detours ⟨6⟩ ⟨4⟩) :=
    ⟨id, Equiv.swap ⟨4⟩ ⟨6⟩, by decide +kernel⟩
  have hskipped : outline ((detours ⟨4⟩ ⟨6⟩).reduce { abstraction := true }) =
      (.ok ⟨[.abstracted "left" "a", .abstracted "right" "b"], 2, [(.a, 2)]⟩, 4) := by cbv
  have hbarred : outline ((detours ⟨6⟩ ⟨4⟩).reduce { abstraction := true }) =
      (.ok ⟨[.abstracted "middle" "a"], 2, [(.a, 1)]⟩, 5) := by cbv
  exact dependsOnOrder_of_outlines (wellFormed_editedBy _) (wellFormed_editedBy _) hiso hskipped hbarred
    (by decide)

/-- Two places that a transition leads round: from the place 0 by `t` to the place 1 and from there by `u`
back again. Both also lead out, `t` to the place 2 and `u` to the place 3. -/
def eddy (t u : TransitionId) : AcceptingNet where
  net := ({} : Net).editedBy
    [.addPlace { name := "left" }, .addPlace { name := "right" }, .addPlace { name := "here" },
      .addPlace { name := "there" }, .addTransition { name := "v", label := some "v" },
      .addTransition { name := "w", label := some "w" }, .addTransition { name := "a" },
      .addTransition { name := "b" }, .addArc (.output ⟨0⟩ ⟨0⟩), .addArc (.output ⟨0⟩ ⟨3⟩),
      .addArc (.output ⟨1⟩ ⟨1⟩), .addArc (.input ⟨0⟩ t), .addArc (.output t ⟨1⟩),
      .addArc (.output t ⟨2⟩), .addArc (.input ⟨1⟩ u), .addArc (.output u ⟨0⟩),
      .addArc (.output u ⟨3⟩)]
  initial := ∅
  final := ∅

/-- `A`, circles: whichever step is skipped, the other one becomes a loop. Only if it is the one from the left,
all that leads to one of the places 2 and 3 leads to both of them, and `FPP` merges them. -/
theorem eddies_depend_on_order :
    DependsOnOrder { abstraction := true, parallelPlaces := true } (eddy ⟨2⟩ ⟨3⟩) (eddy ⟨3⟩ ⟨2⟩) := by
  have hiso : Isomorphic (eddy ⟨2⟩ ⟨3⟩) (eddy ⟨3⟩ ⟨2⟩) :=
    ⟨id, Equiv.swap ⟨2⟩ ⟨3⟩, by decide +kernel⟩
  have hmerged : outline ((eddy ⟨2⟩ ⟨3⟩).reduce { abstraction := true, parallelPlaces := true }) =
      (.ok ⟨[.abstracted "left" "a", .parallelPlacesFused "here" ["there"]], 3,
        [(.fpp, 1), (.a, 1)]⟩, 2) := by cbv
  have hapart : outline ((eddy ⟨3⟩ ⟨2⟩).reduce { abstraction := true, parallelPlaces := true }) =
      (.ok ⟨[.abstracted "right" "a"], 2, [(.a, 1)]⟩, 3) := by cbv
  exact dependsOnOrder_of_outlines (wellFormed_editedBy _) (wellFormed_editedBy _) hiso hmerged hapart
    (by decide)

end AcceptingNet

end ProcessNet
