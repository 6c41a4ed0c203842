/-
A reduction of a consistent net never breaks it and never fails by itself. The checker is shown the net after
each step, and only ever sees consistent nets, and so does whoever gets the net at the end, in whatever way
the reduction ended. It ends early only if the checker objects, and then it does, or if the initial marking
holds more tokens than a count can tell.
-/
import ProcessNet.Proofs.Reduction.Consultation
import ProcessNet.Proofs.Reduction.Language

namespace ProcessNet

namespace Reduction

variable {checker : Option Checker} {s₀ s : Reduction} {e : ReductionError}

theorem Halted.consistent (hs₀ : s₀.net.Consistent) (h : Halted checker s₀ e s) :
    s.net.Consistent := by
  cases h with
  | overflow _ _ hs => exact hs
  | objection _ _ h => exact h.consistent hs₀

theorem Halted.overflow_of_none (h : Halted none s₀ e s) : e = .net (.fault .countOverflow) := by
  cases h with
  | overflow => rfl
  | objection hchecker => cases hchecker

theorem ends_consistent (options : ReductionOptions) (hs₀ : s₀.net.Consistent) :
    Ends (fun _ s => s.net.Consistent) (fun _ s => s.net.Consistent) (complete options s₀) :=
  (ends_complete options hs₀).imp (fun _ _ hs => hs.2.consistent hs₀)
    fun _ _ he => he.consistent hs₀

/-- No step adds tokens to the initial marking: `FSP` moves them, `FPP` and `ELP` drop them. -/
theorem Rewrites.total_le (hs₀ : s₀.net.Consistent) (h : Rewrites s₀ s) :
    s.accepting.initial.total ≤ s₀.accepting.initial.total :=
  (h.induct (I := fun s => s.accepting.initial.total ≤ s₀.accepting.initial.total) hs₀
    (Nat.le_refl _) fun _ _ hs hle hstep => (hstep.lighter hs).total.trans hle).2

theorem total_lt_of_overfull {a : AcceptingNet} (hmirrored : a.net.incidence.Mirrored)
    (h : a.Overfull) : maxCount < a.initial.total := by
  obtain ⟨t, m, hm, hmax⟩ := h
  obtain ⟨_, hagg, htarget⟩ := AcceptingNet.seriesPlacesAt?_eq_some hmirrored hm
  have hne : m.second ≠ m.first := fun he => hagg.noLoop (he ▸ (htarget m.second).2 rfl)
  exact hmax.trans_le (Marking.tokens_add_tokens_le_total hne)

end Reduction

namespace AcceptingNet

open Reduction

theorem reduce_of_complete {a : AcceptingNet} {options : ReductionOptions} {report : ReductionReport}
    {s : Reduction} (h : complete options { accepting := a } = .ok report s) :
    a.reduce options = ⟨s.accepting, .ok report⟩ := by
  rw [reduce, h]

theorem reduce_of_error {a : AcceptingNet} {options : ReductionOptions} {e : ReductionError}
    {s : Reduction} (h : complete options { accepting := a } = .error e s) :
    a.reduce options = ⟨s.accepting, .error e⟩ := by
  rw [reduce, h]

/-! ## Calls of the checker -/

variable {a : AcceptingNet} {options : ReductionOptions} {rule : Rule} {s : Reduction}
  {e : ReductionError} {l : List (ReductionStep × Reduction)}

/-- Each of the steps was shown to the checker in `commit`, after it was made and before it was recorded. -/
def Shown (a : AcceptingNet) (options : ReductionOptions) (steps : List ReductionStep) : Prop :=
  ∀ before step behind, steps = before ++ step :: behind →
    ∃ s, a.ConsultedAt options step.rule s ∧ s.steps = before

theorem objection?_objectingTo_self (checker : Option Checker) (rule : Rule) (n : Net) :
    objection? (some (objectingTo checker n)) rule n = some (rejection rule (.rejected "")) := by
  have hobjects : objectingTo checker n n = .error (.rejected "") := if_pos rfl
  unfold objection?
  simp only [hobjects]
  rfl

/-- Before it is shown `n`, the checker that objects to `n` lets the same pass. -/
theorem unopposed_objectingTo_iff {checker : Option Checker} {n : Net} (hne : ∀ x ∈ l, x.2.net ≠ n) :
    Unopposed (some (objectingTo checker n)) l ↔ Unopposed checker l := by
  refine forall₂_congr fun x hx => ?_
  have hsame : objection? (some (objectingTo checker n)) x.1.rule x.2.net =
      objection? checker x.1.rule x.2.net := by
    simp only [objection?, objectingTo, if_neg (hne x hx)]
    cases checker <;> rfl
  rw [hsame]

theorem ne_of_unopposed {checker : Option Checker} {n : Net}
    (h : Unopposed (some (objectingTo checker n)) l) : ∀ x ∈ l, x.2.net ≠ n := by
  rintro x hx rfl
  cases (h x hx).symm.trans (objection?_objectingTo_self checker x.1.rule x.2.net)

/-- The list of what `reduce` shows to its checker, whatever the checker answers. -/
def Asked (a : AcceptingNet) (options : ReductionOptions) (l : List (ReductionStep × Reduction)) : Prop :=
  Asks (fun checker => complete { options with checker }) { accepting := a } l

theorem exists_asked (options : ReductionOptions) (hnet : a.net.Consistent) : ∃ l, a.Asked options l :=
  asks_complete options hnet

theorem Asked.complete_eq (h : a.Asked options l) (checker : Option Checker) :
    complete { options with checker } { accepting := a } =
      judged checker (complete { options with checker := none } { accepting := a }) l :=
  h.judged checker

/-- Without a checker `reduce` rejects nothing. -/
theorem not_rejected (hnet : a.net.Consistent) (rule : Rule) (e : ReductionError) (s : Reduction) :
    complete { options with checker := none } { accepting := a } ≠ .error (rejection rule e) s := by
  intro hrun
  have hstart : ({ accepting := a } : Reduction).net.Consistent := hnet
  have hends := ends_complete { options with checker := none } hstart
  rw [hrun] at hends
  cases Halted.overflow_of_none hends

/-- `reduce` calls the checker where a step has led, unless it has objected before. -/
theorem Asked.consultedAt_iff (h : a.Asked options l) (hnet : a.net.Consistent) :
    a.ConsultedAt options rule s ↔ ∃ before step behind, l = before ++ (step, s) :: behind ∧
      step.rule = rule ∧ Unopposed options.checker before := by
  unfold ConsultedAt
  rw [h.complete_eq]
  constructor
  · intro hjudged
    rcases unopposed_or_exists (some (objectingTo options.checker s.net)) l with
      hall | ⟨before, step, s₁, behind, e, rfl, hbefore, hobj⟩
    · rw [judged_of_unopposed hall] at hjudged
      exact absurd hjudged (not_rejected hnet _ _ _)
    · rw [judged_of_objection hbefore hobj] at hjudged
      obtain ⟨rfl, rfl⟩ := EStateM.Result.error.inj hjudged
      rw [objection?_objectingTo_self] at hobj
      exact ⟨before, step, behind, rfl, rejection_inj (Option.some.inj hobj),
        (unopposed_objectingTo_iff (ne_of_unopposed hbefore)).1 hbefore⟩
  · rintro ⟨before, step, behind, rfl, rfl, hbefore⟩
    -- no net is shown twice, so the checker that objects to this one has not objected before
    have hstart : ({ accepting := a } : Reduction).net.Consistent := hnet
    obtain ⟨s', htrail, -⟩ := h.trail
    have hne := htrail.net_ne hstart
    exact judged_of_objection ((unopposed_objectingTo_iff hne).2 hbefore)
      (objection?_objectingTo_self _ _ _)

/-- The steps in front of a state that the checker is shown were shown to it, too. -/
theorem Asked.shown (h : a.Asked options l) (hnet : a.net.Consistent)
    {before behind : List (ReductionStep × Reduction)} (hl : l = before ++ behind)
    (hbefore : Unopposed options.checker before) : a.Shown options (before.map Prod.fst) := by
  intro pre step post hsteps
  obtain ⟨l₁, l₂, rfl, hpre, hpost⟩ := List.map_eq_append_iff.1 hsteps
  obtain ⟨⟨_, s₁⟩, l₃, rfl, rfl, -⟩ := List.map_eq_cons_iff.1 hpost
  rw [List.append_assoc, List.cons_append] at hl
  have hl₁ : Unopposed options.checker l₁ := fun x hx => hbefore x (List.mem_append_left _ hx)
  refine ⟨s₁, (h.consultedAt_iff hnet).2 ⟨l₁, _, _, hl, rfl, hl₁⟩, ?_⟩
  subst hl
  obtain ⟨s', htrail, -⟩ := h.trail
  exact htrail.steps_of_append.trans hpre

theorem ConsultedAt.shown (h : a.ConsultedAt options rule s) (hnet : a.net.Consistent) :
    a.Shown options s.steps := by
  obtain ⟨l, hasked⟩ := exists_asked options hnet
  obtain ⟨before, step, behind, rfl, -, hbefore⟩ := (hasked.consultedAt_iff hnet).1 h
  obtain ⟨s', htrail, -⟩ := hasked.trail
  have hsteps : s.steps = before.map Prod.fst := htrail.steps_of_append
  rw [hsteps]
  exact hasked.shown hnet rfl hbefore

/-- If the checker objects when it is called, `reduce` ends there. -/
theorem ConsultedAt.reduce_of_objection (h : a.ConsultedAt options rule s) (hnet : a.net.Consistent)
    {check : Checker} (hchecker : options.checker = some check) (he : check s.net = .error e) :
    a.reduce options = ⟨s.accepting, .error (rejection rule e)⟩ := by
  obtain ⟨l, hasked⟩ := exists_asked options hnet
  obtain ⟨before, step, behind, rfl, rfl, hbefore⟩ := (hasked.consultedAt_iff hnet).1 h
  have hobj : objection? options.checker step.rule s.net = some (rejection step.rule e) := by
    rw [hchecker]
    simp only [objection?, he]
    rfl
  exact reduce_of_error ((hasked.complete_eq options.checker).trans (judged_of_objection hbefore hobj))

/-- If `reduce` ends with a rejection, it has called the checker in the state that it left. -/
theorem consultedAt_of_rejection (hnet : a.net.Consistent)
    (hrun : complete options { accepting := a } = .error (rejection rule e) s) :
    a.ConsultedAt options rule s := by
  obtain ⟨l, hasked⟩ := exists_asked options hnet
  have hjudged := (hasked.complete_eq options.checker).symm.trans hrun
  rcases unopposed_or_exists options.checker l with
    hall | ⟨before, step, s₁, behind, e', rfl, hbefore, hobj⟩
  · rw [judged_of_unopposed hall] at hjudged
    exact absurd hjudged (not_rejected hnet _ _ _)
  · rw [judged_of_objection hbefore hobj] at hjudged
    obtain ⟨rfl, rfl⟩ := EStateM.Result.error.inj hjudged
    have hrule : step.rule = rule := by
      unfold objection? at hobj
      split at hobj
      · cases hobj
      · split at hobj
        · cases hobj
        · exact rejection_inj (Option.some.inj hobj)
    exact (hasked.consultedAt_iff hnet).2 ⟨before, step, behind, rfl, hrule, hbefore⟩

theorem shown_of_complete {report : ReductionReport} (hnet : a.net.Consistent)
    (hrun : complete options { accepting := a } = .ok report s) : a.Shown options s.steps := by
  obtain ⟨l, hasked⟩ := exists_asked options hnet
  have hjudged := (hasked.complete_eq options.checker).symm.trans hrun
  rcases unopposed_or_exists options.checker l with
    hall | ⟨before, step, s₁, behind, e', rfl, hbefore, hobj⟩
  · rw [judged_of_unopposed hall] at hjudged
    obtain ⟨s', htrail, hend⟩ := hasked.trail
    obtain rfl := hend report s hjudged
    have hsteps : s.steps = l.map Prod.fst := htrail.steps
    rw [hsteps]
    exact hasked.shown hnet (List.append_nil l).symm hall
  · rw [judged_of_objection hbefore hobj] at hjudged
    cases hjudged

/-! ## The main result -/

/-- `reduce` keeps a net consistent: at every call of the checker, which comes after every step, and in the
end. If the checker objects in such a call, the reduction ends there with the rejection; it succeeds, unless
the checker does, or the tokens of the initial marking are more than a count can tell. -/
theorem reduce_keeps_consistency (a : AcceptingNet) (options : ReductionOptions)
    (hnet : a.net.checkConsistency = .ok ()) (hnodup : a.net.arcs.Nodup) :
    (∀ rule s, a.ConsultedAt options rule s → s.net.checkConsistency = .ok () ∧
      a.Shown options s.steps ∧ ∀ check e, options.checker = some check → check s.net = .error e →
        a.reduce options = ⟨s.accepting, .error (rejection rule e)⟩) ∧
    (a.reduce options).accepting.net.checkConsistency = .ok () ∧
    ((∃ report, (a.reduce options).report = .ok report ∧ a.Shown options report.steps) ∨
      (∃ check rule s e, options.checker = some check ∧ a.ConsultedAt options rule s ∧
        check s.net = .error e ∧ a.reduce options = ⟨s.accepting, .error (rejection rule e)⟩) ∨
      (a.reduce options).report = .error (.net (.fault .countOverflow)) ∧
        maxCount < a.initial.total) := by
  have hcons := (Net.consistent_iff_checkConsistency hnodup).2 hnet
  have hstart : ({ accepting := a } : Reduction).net.Consistent := hcons
  have hcheck : ∀ n : Net, n.Consistent → n.checkConsistency = .ok () := fun n hn =>
    (Net.consistent_iff_checkConsistency hn.mirrored.nodup).1 hn
  refine ⟨fun rule s hs => ⟨?_, hs.shown hcons, fun check e hchecker he =>
    hs.reduce_of_objection hcons hchecker he⟩, ?_⟩
  · -- the run that ends in this call leaves a consistent net, as every run does
    have hends := ends_consistent { options with checker := some (objectingTo options.checker s.net) }
      hstart
    rw [hs] at hends
    exact hcheck _ hends
  -- a run takes steps up to its end, and so far every net was consistent
  have hends := ends_complete options hstart
  cases hrun : complete options { accepting := a } with
  | ok report s =>
    rw [hrun] at hends
    rw [reduce_of_complete hrun]
    exact ⟨hcheck _ (hends.2.consistent hstart), .inl ⟨report, rfl,
      hends.1 ▸ shown_of_complete hcons hrun⟩⟩
  | error e s =>
    rw [hrun] at hends
    rw [reduce_of_error hrun]
    refine ⟨hcheck _ (Halted.consistent hstart hends), .inr ?_⟩
    -- the two ways in that a run can stop early
    cases hends with
    | overflow h hfull =>
      have hmirrored := (h.consistent hstart).mirrored
      exact .inr ⟨rfl, (total_lt_of_overfull hmirrored hfull).trans_le (h.total_le hstart)⟩
    | objection hchecker he h =>
      exact .inl ⟨_, _, s, _, hchecker, consultedAt_of_rejection hcons hrun, he, rfl⟩

/-- An order is opened, worked on, handed on in one of two equal ways, and shipped with two equal things from
the stock. -/
def workshop : AcceptingNet where
  net := {
    places := ⟨[some { name := "start" }, some { name := "order" }, some { name := "queue" },
      some { name := "ready" }, some { name := "stock" }, some { name := "spare" },
      some { name := "done" }]⟩
    transitions := ⟨[some { name := "open" }, some { name := "work", label := some "work" },
      some { name := "hand" }, some { name := "pass" }, some { name := "ship", label := some "ship" }]⟩
    incidence := {
      arcs := [.input ⟨0⟩ ⟨0⟩, .output ⟨0⟩ ⟨1⟩, .input ⟨1⟩ ⟨1⟩, .output ⟨1⟩ ⟨2⟩, .output ⟨1⟩ ⟨4⟩,
        .output ⟨1⟩ ⟨5⟩, .inhibitor ⟨6⟩ ⟨1⟩, .reset ⟨6⟩ ⟨1⟩, .input ⟨2⟩ ⟨2⟩, .output ⟨2⟩ ⟨3⟩,
        .input ⟨2⟩ ⟨3⟩, .output ⟨3⟩ ⟨3⟩, .input ⟨3⟩ ⟨4⟩, .input ⟨4⟩ ⟨4⟩, .input ⟨5⟩ ⟨4⟩,
        .output ⟨4⟩ ⟨6⟩]
      byPlace := ⟨[[(⟨0⟩, .input)], [(⟨0⟩, .output), (⟨1⟩, .input)],
        [(⟨1⟩, .output), (⟨2⟩, .input), (⟨3⟩, .input)], [(⟨2⟩, .output), (⟨3⟩, .output), (⟨4⟩, .input)],
        [(⟨1⟩, .output), (⟨4⟩, .input)], [(⟨1⟩, .output), (⟨4⟩, .input)],
        [(⟨1⟩, .inhibitor), (⟨1⟩, .reset), (⟨4⟩, .output)]]⟩
      byTransition := ⟨[[(⟨0⟩, .input), (⟨1⟩, .output)],
        [(⟨1⟩, .input), (⟨2⟩, .output), (⟨4⟩, .output), (⟨5⟩, .output), (⟨6⟩, .inhibitor), (⟨6⟩, .reset)],
        [(⟨2⟩, .input), (⟨3⟩, .output)], [(⟨2⟩, .input), (⟨3⟩, .output)],
        [(⟨3⟩, .input), (⟨4⟩, .input), (⟨5⟩, .input), (⟨6⟩, .output)]]⟩ }
    placeNames := ⟨[("start", ⟨0⟩), ("order", ⟨1⟩), ("queue", ⟨2⟩), ("ready", ⟨3⟩), ("stock", ⟨4⟩),
      ("spare", ⟨5⟩), ("done", ⟨6⟩)]⟩
    transitionNames := ⟨[("open", ⟨0⟩), ("work", ⟨1⟩), ("hand", ⟨2⟩), ("pass", ⟨3⟩), ("ship", ⟨4⟩)]⟩ }
  initial := ⟨[(⟨0⟩, 2), (⟨4⟩, 1), (⟨5⟩, 1)]⟩
  final := ⟨[(⟨6⟩, 1)]⟩

/-- The net with the order at its place. -/
def opened : AcceptingNet where
  net := { workshop.net with
    places := ⟨[none, some { name := "order" }, some { name := "queue" }, some { name := "ready" },
      some { name := "stock" }, some { name := "spare" }, some { name := "done" }]⟩
    transitions := ⟨[none, some { name := "work", label := some "work" }, some { name := "hand" },
      some { name := "pass" }, some { name := "ship", label := some "ship" }]⟩
    incidence := {
      arcs := [.input ⟨1⟩ ⟨1⟩, .output ⟨1⟩ ⟨2⟩, .output ⟨1⟩ ⟨4⟩, .output ⟨1⟩ ⟨5⟩, .inhibitor ⟨6⟩ ⟨1⟩,
        .reset ⟨6⟩ ⟨1⟩, .input ⟨2⟩ ⟨2⟩, .output ⟨2⟩ ⟨3⟩, .input ⟨2⟩ ⟨3⟩, .output ⟨3⟩ ⟨3⟩,
        .input ⟨3⟩ ⟨4⟩, .input ⟨4⟩ ⟨4⟩, .input ⟨5⟩ ⟨4⟩, .output ⟨4⟩ ⟨6⟩]
      byPlace := ⟨[[], [(⟨1⟩, .input)], [(⟨1⟩, .output), (⟨2⟩, .input), (⟨3⟩, .input)],
        [(⟨2⟩, .output), (⟨3⟩, .output), (⟨4⟩, .input)], [(⟨1⟩, .output), (⟨4⟩, .input)],
        [(⟨1⟩, .output), (⟨4⟩, .input)], [(⟨1⟩, .inhibitor), (⟨1⟩, .reset), (⟨4⟩, .output)]]⟩
      byTransition := ⟨[[],
        [(⟨1⟩, .input), (⟨2⟩, .output), (⟨4⟩, .output), (⟨5⟩, .output), (⟨6⟩, .inhibitor), (⟨6⟩, .reset)],
        [(⟨2⟩, .input), (⟨3⟩, .output)], [(⟨2⟩, .input), (⟨3⟩, .output)],
        [(⟨3⟩, .input), (⟨4⟩, .input), (⟨5⟩, .input), (⟨6⟩, .output)]]⟩ }
    placeNames := ⟨[("order", ⟨1⟩), ("queue", ⟨2⟩), ("ready", ⟨3⟩), ("stock", ⟨4⟩), ("spare", ⟨5⟩),
      ("done", ⟨6⟩)]⟩
    transitionNames := ⟨[("work", ⟨1⟩), ("hand", ⟨2⟩), ("pass", ⟨3⟩), ("ship", ⟨4⟩)]⟩ }
  initial := ⟨[(⟨1⟩, 2), (⟨4⟩, 1), (⟨5⟩, 1)]⟩
  final := workshop.final

/-- The open workshop with a single way to hand on. -/
def merged : AcceptingNet where
  net := { opened.net with
    transitions := ⟨[none, some { name := "work", label := some "work" }, some { name := "hand" }, none,
      some { name := "ship", label := some "ship" }]⟩
    incidence := {
      arcs := [.input ⟨1⟩ ⟨1⟩, .output ⟨1⟩ ⟨2⟩, .output ⟨1⟩ ⟨4⟩, .output ⟨1⟩ ⟨5⟩, .inhibitor ⟨6⟩ ⟨1⟩,
        .reset ⟨6⟩ ⟨1⟩, .input ⟨2⟩ ⟨2⟩, .output ⟨2⟩ ⟨3⟩, .input ⟨3⟩ ⟨4⟩, .input ⟨4⟩ ⟨4⟩,
        .input ⟨5⟩ ⟨4⟩, .output ⟨4⟩ ⟨6⟩]
      byPlace := ⟨[[], [(⟨1⟩, .input)], [(⟨1⟩, .output), (⟨2⟩, .input)],
        [(⟨2⟩, .output), (⟨4⟩, .input)], [(⟨1⟩, .output), (⟨4⟩, .input)],
        [(⟨1⟩, .output), (⟨4⟩, .input)], [(⟨1⟩, .inhibitor), (⟨1⟩, .reset), (⟨4⟩, .output)]]⟩
      byTransition := ⟨[[],
        [(⟨1⟩, .input), (⟨2⟩, .output), (⟨4⟩, .output), (⟨5⟩, .output), (⟨6⟩, .inhibitor), (⟨6⟩, .reset)],
        [(⟨2⟩, .input), (⟨3⟩, .output)], [],
        [(⟨3⟩, .input), (⟨4⟩, .input), (⟨5⟩, .input), (⟨6⟩, .output)]]⟩ }
    transitionNames := ⟨[("work", ⟨1⟩), ("hand", ⟨2⟩), ("ship", ⟨4⟩)]⟩ }
  initial := opened.initial
  final := workshop.final

/-- The net with what is done handed on at once. -/
def tidied : AcceptingNet where
  net := {
    places := ⟨[none, some { name := "order" }, none, some { name := "ready" }, some { name := "stock" },
      none, some { name := "done" }]⟩
    transitions := ⟨[none, some { name := "work", label := some "work" }, none, none,
      some { name := "ship", label := some "ship" }]⟩
    incidence := {
      arcs := [.input ⟨1⟩ ⟨1⟩, .output ⟨1⟩ ⟨4⟩, .inhibitor ⟨6⟩ ⟨1⟩, .input ⟨3⟩ ⟨4⟩, .input ⟨4⟩ ⟨4⟩,
        .output ⟨4⟩ ⟨6⟩, .output ⟨1⟩ ⟨3⟩]
      byPlace := ⟨[[], [(⟨1⟩, .input)], [], [(⟨4⟩, .input), (⟨1⟩, .output)],
        [(⟨1⟩, .output), (⟨4⟩, .input)], [], [(⟨1⟩, .inhibitor), (⟨4⟩, .output)]]⟩
      byTransition := ⟨[[], [(⟨1⟩, .input), (⟨4⟩, .output), (⟨6⟩, .inhibitor), (⟨3⟩, .output)], [], [],
        [(⟨3⟩, .input), (⟨4⟩, .input), (⟨6⟩, .output)]]⟩ }
    placeNames := ⟨[("order", ⟨1⟩), ("ready", ⟨3⟩), ("stock", ⟨4⟩), ("done", ⟨6⟩)]⟩
    transitionNames := ⟨[("work", ⟨1⟩), ("ship", ⟨4⟩)]⟩ }
  initial := ⟨[(⟨1⟩, 2), (⟨4⟩, 1)]⟩
  final := ⟨[(⟨6⟩, 1)]⟩

/-- The options of the workshop: `FPT` and `FPP` are asked for. -/
def workshopOptions : ReductionOptions where
  parallelTransitions := true
  parallelPlaces := true

/-- Five rules in three passes: what `FPT` merges in the first one, `FST` can fuse in the second. -/
theorem reduce_workshop : workshop.reduce workshopOptions = ⟨tidied, .ok
    ⟨[.seriesPlacesFused "start" "open" "order", .parallelTransitionsFused "hand" ["pass"],
      .parallelPlacesFused "stock" ["spare"], .resetArcRemoved "done" "work",
      .seriesTransitionsFused "queue" "hand" "work"], 3,
      [(.fst, 1), (.fsp, 1), (.fpt, 1), (.fpp, 1), (.r, 1)]⟩⟩ := by cbv

/-- The checker that wants both ways to hand on. -/
def choosy : Checker := fun n =>
  if n.hasTransition ⟨3⟩ then .ok () else .error (.rejected "one way only")

/-- With this checker the reduction of the workshop comes to an end after `FPT`. -/
theorem complete_workshop :
    complete { workshopOptions with checker := some choosy } { accepting := workshop } =
      .error (rejection .fpt (.rejected "one way only"))
        ⟨merged, [.seriesPlacesFused "start" "open" "order"]⟩ := by
  let before : Reduction := { accepting := workshop }
  let between : Reduction := ⟨opened, [.seriesPlacesFused "start" "open" "order"]⟩
  let after : Reduction := ⟨merged, [.seriesPlacesFused "start" "open" "order"]⟩
  have hfst : runRule (some choosy) .fst before = .ok 0 before := by cbv
  have hfsp : runRule (some choosy) .fsp before = .ok 1 between := by cbv
  have hgroups : between.accepting.parallelTransitions = [⟨⟨2⟩, [⟨3⟩]⟩] := by cbv
  have hmerge : fuseParallelTransitions ⟨⟨2⟩, [⟨3⟩]⟩ between = .ok () after := by cbv
  have hobj : objection? (some choosy) .fpt merged.net =
      some (rejection .fpt (.rejected "one way only")) := rfl
  have hfpt : runRule (some choosy) .fpt between =
      .error (rejection .fpt (.rejected "one way only")) after := by
    change runParallelTransitions (some choosy) between = _
    rw [runParallelTransitions, get_bind]
    rw [hgroups, List.forM]
    refine bind_of_error (bind_of_error ?_)
    unfold performOnce
    rw [get_bind, bind_of_ok hmerge]
    exact commit_of_objection (by decide) hobj
  unfold complete
  refine bind_of_error (passes_of_error ?_)
  rw [Reduction.pass, Rule.order, List.foldlM_cons, bind_of_ok (turn_of_runs rfl hfst),
    List.foldlM_cons, bind_of_ok (turn_of_runs rfl hfsp), List.foldlM_cons]
  refine bind_of_error ?_
  rw [turn, get_bind, if_pos (by rfl)]
  exact bind_of_error hfpt

theorem consultedAt_merged : workshop.ConsultedAt { workshopOptions with checker := some choosy } .fpt
    ⟨merged, [.seriesPlacesFused "start" "open" "order"]⟩ :=
  consultedAt_of_rejection ((Net.consistent_iff_checkConsistency (by decide)).2 (by decide +kernel))
    complete_workshop

/-- Without a checker the workshop is reduced to the end, and all five steps have been open to inspection;
the checker that wants both ways to hand on stops the reduction after the second one. -/
theorem workshop_keeps_consistency :
    (∃ s, workshop.ConsultedAt workshopOptions .fst s ∧ s.steps.length = 4 ∧
      s.net.checkConsistency = .ok ()) ∧
    tidied.net.checkConsistency = .ok () ∧ merged.net.checkConsistency = .ok () ∧
    workshop.reduce { workshopOptions with checker := some choosy } =
      ⟨merged, .error (rejection .fpt (.rejected "one way only"))⟩ := by
  have hopen := reduce_keeps_consistency workshop workshopOptions (by decide +kernel) (by decide)
  have hchoosy := reduce_keeps_consistency workshop { workshopOptions with checker := some choosy }
    (by decide +kernel) (by decide)
  obtain ⟨hmerged, -, hrejected⟩ := hchoosy.1 .fpt _ consultedAt_merged
  rw [reduce_workshop] at hopen
  obtain ⟨hconsulted, htidied, hend⟩ := hopen
  refine ⟨?_, htidied, hmerged, hrejected choosy _ rfl rfl⟩
  rcases hend with ⟨report, hreport, hshown⟩ | ⟨_, _, _, _, hchecker, _⟩ | ⟨hoverflow, _⟩
  · cases hreport
    obtain ⟨s, hs, hsteps⟩ := hshown [_, _, _, _] _ [] rfl
    exact ⟨s, hs, by rw [hsteps]; rfl, (hconsulted _ s hs).1⟩
  · cases hchecker
  · cases hoverflow

end AcceptingNet

end ProcessNet
