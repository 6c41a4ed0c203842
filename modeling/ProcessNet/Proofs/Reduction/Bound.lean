/-
How long a reduction of a consistent net lasts. The weight of the net, which counts its places, transitions
and reset arcs, falls with every step; so a reduction takes no more steps than the net weighs, and every
pass but the last one takes at least one step. The loops over worklists, which enqueue neighbours after
each step, end for the same reason and not because of the size check after each step.
-/
import ProcessNet.Proofs.Reduction.Consistency
import ProcessNet.Proofs.Reduction.Taken

namespace ProcessNet

namespace Reduction

variable {s s' : Reduction}

/-! ## Steps -/

/-- The weight of the net that a state holds, together with the steps that it has taken. -/
def budget (s : Reduction) : Nat := s.steps.length + s.net.weight

theorem Rewrites.budget_le (hs : s.net.Consistent) (h : Rewrites s s') : s'.budget ≤ s.budget := by
  refine (h.induct (I := fun s' => s'.budget ≤ s.budget) hs (Nat.le_refl _) ?_).2
  intro s₁ s₂ hs₁ hle hstep
  have hweight : s₂.net.weight < s₁.net.weight := (hstep.lighter hs₁).weight
  obtain ⟨step, _, hsteps⟩ := hstep
  have hlength : s₂.steps.length = s₁.steps.length + 1 := by
    rw [hsteps, List.length_append, List.length_singleton]
  unfold budget at hle ⊢
  omega

/-! ## Worklists -/

/-- One round of `drain`, without any check: the rule does not match at the first anchor, or `apply` is
run there and the neighbours that it tells of are enqueued. -/
inductive LocalRule.Round {ι : Type} [DecidableEq ι] (rule : LocalRule ι) :
    Reduction × List ι → Reduction × List ι → Prop
  | skip {s : Reduction} {i : ι} {queue : List ι} (hm : rule.match? s.accepting i = none) :
    Round rule (s, i :: queue) (s, queue)
  | apply {s s' : Reduction} {i : ι} {queue neighbours : List ι} {m : rule.Match}
    (hm : rule.match? s.accepting i = some m) (h : rule.apply i m s = .ok neighbours s') :
    Round rule (s, i :: queue) (s'.record (rule.describe s.net i m), enqueue queue neighbours)

/-- `drain` ends: each application makes the net lighter, and between two of them the worklist becomes
shorter. -/
theorem LocalRule.Fits.acc_round {ι : Type} [DecidableEq ι] {rule : LocalRule ι} (h : rule.Fits)
    (hs : s.net.Consistent) (queue : List ι) :
    Acc (fun x y => rule.Round y x) (s, queue) := by
  induction hw : s.net.weight using Nat.strong_induction_on generalizing s queue with
  | _ w ihw =>
    induction queue with
    | nil => exact ⟨_, fun _ hround => nomatch hround⟩
    | cons i queue ihq =>
      refine ⟨_, fun _ hround => ?_⟩
      cases hround with
      | skip hm => exact ihq
      | @apply _ s' _ _ neighbours m hm happly =>
        have hfits := h s i m hs hm
        rw [happly] at hfits
        have hlighter := hfits.1.lighter hs.mirrored
        exact ihw _ (hw ▸ hlighter.weight) (s := s'.record _) hlighter.consistent _ rfl

/-- How `drain` ends: no anchor is left, or `perform` fails at the first one. -/
inductive LocalRule.Ending {ι : Type} (rule : LocalRule ι) (checker : Option Checker) :
    Reduction × List ι → EStateM.Result ReductionError Reduction Nat → Prop
  | done {s : Reduction} {k : Nat} : Ending rule checker (s, []) (.ok k s)
  | failed {s s' : Reduction} {i : ι} {queue : List ι} {m : rule.Match} {e : ReductionError}
    (hm : rule.match? s.accepting i = some m) (h : rule.perform checker i m s = .error e s') :
    Ending rule checker (s, i :: queue) (.error e s')

/-- `drain`, which checks each step, makes these rounds until it ends. -/
theorem rounds_of_drain {ι : Type} [DecidableEq ι] (rule : LocalRule ι) (checker : Option Checker)
    (queue : List ι) (applied : Nat) (s : Reduction) :
    ∃ x, Relation.ReflTransGen rule.Round (s, queue) x ∧
      rule.Ending checker x (drain rule checker queue applied s) := by
  induction queue, applied, s using drain_induction rule checker with
  | nil applied s =>
    rw [drain_nil]
    exact ⟨_, .refl, .done⟩
  | idle applied s i queue hm ih =>
    obtain ⟨x, hrounds, hend⟩ := ih
    rw [drain_cons_of_none hm]
    exact ⟨x, .head (.skip hm) hrounds, hend⟩
  | error applied s i queue m hm e s₁ hp =>
    rw [drain_cons_of_error hm hp]
    exact ⟨_, .refl, .failed hm hp⟩
  | ok applied s i queue m hm neighbours s₁ hp ih =>
    obtain ⟨x, hrounds, hend⟩ := ih
    obtain ⟨s₂, happly, rfl⟩ := LocalRule.perform_eq_ok hp
    rw [drain_cons_of_ok hm hp]
    exact ⟨x, .head (.apply hm happly) hrounds, hend⟩

/-- All loops of the rule from the state `s` on come to their end: no worklist makes rounds for ever, and
`drain` answers what its rounds lead to. -/
def LocalRule.Terminates {ι : Type} [DecidableEq ι] (rule : LocalRule ι) (checker : Option Checker)
    (s : Reduction) : Prop :=
  ∀ queue, Acc (fun x y => rule.Round y x) (s, queue) ∧
    ∀ applied, ∃ x, Relation.ReflTransGen rule.Round (s, queue) x ∧
      rule.Ending checker x (drain rule checker queue applied s)

theorem LocalRule.Fits.terminates {ι : Type} [DecidableEq ι] {rule : LocalRule ι} (h : rule.Fits)
    (checker : Option Checker) (hs : s.net.Consistent) : rule.Terminates checker s := fun queue =>
  ⟨h.acc_round hs queue, fun applied => rounds_of_drain rule checker queue applied s⟩

/-! ## Passes -/

/-- One more round of `passes`: in the pass some rule was applied, so that another pass follows. -/
def PassRound (options : ReductionOptions) (s s' : Reduction) : Prop :=
  ∃ applied counts, pass options applied s = .ok counts s' ∧ counts.inPass ≠ 0

/-- How `passes` ends: in the last pass nothing was applied, or it fails. -/
inductive PassEnding (options : ReductionOptions) :
    Reduction → EStateM.Result ReductionError Reduction (Nat × List (Rule × Nat)) → Prop
  | idle {s s' : Reduction} {applied : List (Rule × Nat)} {counts : Counts} {made : Nat}
    (h : pass options applied s = .ok counts s') (hidle : counts.inPass = 0) :
    PassEnding options s (.ok (made, counts.applied) s')
  | failed {s s' : Reduction} {applied : List (Rule × Nat)} {e : ReductionError}
    (h : pass options applied s = .error e s') : PassEnding options s (.error e s')

/-- `passes` ends: what a pass applies is on record as steps, and each step makes the net lighter. -/
theorem acc_passRound (options : ReductionOptions) (hs : s.net.Consistent) :
    Acc (fun x y => PassRound options y x) s := by
  induction hw : s.net.weight using Nat.strong_induction_on generalizing s with
  | _ w ih =>
    refine ⟨_, fun s' hround => ?_⟩
    obtain ⟨applied, counts, hpass, happlied⟩ := hround
    have hends := ends_pass options applied hs (.refl s)
    rw [hpass] at hends
    have hrewrites : Rewrites s s' := hends
    have hbudget := hrewrites.budget_le hs
    have hlength := length_of_pass hs hpass
    unfold budget at hbudget
    exact ih s'.net.weight (by omega) (hrewrites.consistent hs) rfl

/-- `passes` makes such passes until it ends. -/
theorem rounds_of_passes (options : ReductionOptions) (made : Nat) (applied : List (Rule × Nat))
    (s : Reduction) :
    ∃ s', Relation.ReflTransGen (PassRound options) s s' ∧
      PassEnding options s' (passes options made applied s) := by
  induction made, applied, s using passes_induction options with
  | error made applied s e s₁ hp =>
    rw [passes_of_error hp]
    exact ⟨s, .refl, .failed hp⟩
  | idle made applied s counts s₁ hp hidle =>
    rw [passes_of_ok hp, if_pos hidle]
    exact ⟨s, .refl, .idle hp hidle⟩
  | again made applied s counts s₁ hp happlied ih =>
    obtain ⟨s', hrounds, hend⟩ := ih
    rw [passes_of_ok hp, if_neg happlied]
    exact ⟨s', .head ⟨applied, counts, hp, happlied⟩ hrounds, hend⟩

/-- The loop of the passes from the state `s` on comes to its end: it does not make passes for ever, and
`passes` answers what the last one leaves. -/
def PassesTerminate (options : ReductionOptions) (s : Reduction) : Prop :=
  Acc (fun x y => PassRound options y x) s ∧
    ∀ made applied, ∃ s', Relation.ReflTransGen (PassRound options) s s' ∧
      PassEnding options s' (passes options made applied s)

/-- Every pass that `passes` makes takes a step, but for the last one. -/
theorem made_le_of_passes {options : ReductionOptions} {made made' : Nat}
    {applied applied' : List (Rule × Nat)} (hs : s.net.Consistent)
    (h : passes options made applied s = .ok (made', applied') s') :
    made' + s.steps.length ≤ made + s'.steps.length + 1 := by
  induction made, applied, s using passes_induction options with
  | error made applied s e s₁ hp =>
    rw [passes_of_error hp] at h
    cases h
  | idle made applied s counts s₁ hp hidle =>
    have hlength := length_of_pass hs hp
    rw [passes_of_ok hp, if_pos hidle] at h
    cases h
    omega
  | again made applied s counts s₁ hp happlied ih =>
    have hends := ends_pass options applied hs (.refl s)
    have hlength := length_of_pass hs hp
    rw [passes_of_ok hp, if_neg happlied] at h
    rw [hp] at hends
    have hrewrites : Rewrites s s₁ := hends
    have hrest := ih (hrewrites.consistent hs) h
    omega

theorem passes_of_complete {options : ReductionOptions} {report : ReductionReport}
    (h : complete options s = .ok report s') :
    report.steps = s'.steps ∧ s'.net.checkConsistency = .ok () ∧
      passes options 0 [] s = .ok (report.passes, report.applied) s' := by
  unfold complete at h
  obtain ⟨⟨made, applied⟩, s₁, hpasses, h⟩ := bind_eq_ok.1 h
  dsimp only at h
  rw [get_bind] at h
  cases hcheck : s₁.net.checkConsistency with
  | ok u =>
    rw [hcheck] at h
    cases h
    exact ⟨rfl, hcheck, hpasses⟩
  | error e =>
    rw [hcheck] at h
    cases h

end Reduction

namespace AcceptingNet

open Reduction

theorem complete_of_reduce {a b : AcceptingNet} {options : ReductionOptions}
    {report : ReductionReport} (h : a.reduce options = ⟨b, .ok report⟩) :
    ∃ s, complete options { accepting := a } = .ok report s ∧ s.accepting = b := by
  unfold reduce at h
  split at h
  · rename_i report' s hrun
    cases h
    exact ⟨s, hrun, rfl⟩
  · cases h

/-- The loops of `reduce` end, those of `drain` over worklists and that of `passes`; and if `reduce`
succeeds, it takes at most as many steps as the net has places, transitions and reset arcs, and makes at
most one pass more than it takes steps. -/
theorem reduce_terminates (a : AcceptingNet) (options : ReductionOptions)
    (hnet : a.net.checkConsistency = .ok ()) (hnodup : a.net.arcs.Nodup) :
    (∀ steps, seriesTransitions.Terminates options.checker ⟨a, steps⟩ ∧
      seriesPlaces.Terminates options.checker ⟨a, steps⟩ ∧
      selfLoopTransitions.Terminates options.checker ⟨a, steps⟩ ∧
      selfLoopPlaces.Terminates options.checker ⟨a, steps⟩ ∧
      silentSteps.Terminates options.checker ⟨a, steps⟩ ∧
      PassesTerminate options ⟨a, steps⟩) ∧
    ∀ b report, a.reduce options = ⟨b, .ok report⟩ →
      report.steps.length ≤ a.net.placeCount + a.net.transitionCount + a.net.resetCount ∧
      report.passes ≤ report.steps.length + 1 := by
  have hcons := (Net.consistent_iff_checkConsistency hnodup).2 hnet
  have hstart : ∀ steps, (⟨a, steps⟩ : Reduction).net.Consistent := fun _ => hcons
  refine ⟨fun steps => ?_, fun b report h => ?_⟩
  · have hs := hstart steps
    exact ⟨seriesTransitions_fits.terminates _ hs, seriesPlaces_fits.terminates _ hs,
      selfLoopTransitions_fits.terminates _ hs, selfLoopPlaces_fits.terminates _ hs,
      silentSteps_fits.terminates _ hs, acc_passRound options hs,
      fun made applied => rounds_of_passes options made applied _⟩
  obtain ⟨s, hrun, _⟩ := complete_of_reduce h
  obtain ⟨hsteps, _, hpasses⟩ := passes_of_complete hrun
  have hends := ends_complete options (hstart [])
  rw [hrun] at hends
  have hbudget : s.steps.length + s.net.weight ≤ 0 + a.net.weight := hends.2.budget_le (hstart [])
  have hmade : report.passes + 0 ≤ 0 + s.steps.length + 1 := made_le_of_passes (hstart []) hpasses
  rw [hsteps]
  unfold Net.weight at hbudget
  omega

/-- The workshop is reduced in five steps and three passes; it has seven places, five transitions and one
reset arc. -/
theorem workshop_terminates : seriesPlaces.Terminates none { accepting := workshop } ∧
    PassesTerminate workshopOptions { accepting := workshop } ∧
    5 ≤ workshop.net.placeCount + workshop.net.transitionCount + workshop.net.resetCount ∧ 3 ≤ 5 + 1 := by
  obtain ⟨hloops, hbound⟩ := reduce_terminates workshop workshopOptions (by decide +kernel) (by decide)
  obtain ⟨-, hseries, -, -, -, hpasses⟩ := hloops []
  exact ⟨hseries, hpasses, hbound _ _ reduce_workshop⟩

end AcceptingNet

end ProcessNet
