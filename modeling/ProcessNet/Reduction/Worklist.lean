/-
Running a rule until it matches nowhere. A worklist holds the anchors that are still to be tried;
after each application the neighbours that may match now are tried again. Every application has
to make the net smaller, which is checked, and which is why a run comes to its end.
-/
import ProcessNet.Reduction.Apply

namespace ProcessNet.Reduction

/-- Adds anchors to a worklist, each of them unless it is waiting there already. -/
def enqueue {ι : Type} [DecidableEq ι] (queue more : List ι) : List ι :=
  more.foldl (fun queue i => if i ∈ queue then queue else queue ++ [i]) queue

/-- Why the checker turns a net down after a rule was applied, if it does. -/
def objection? (checker : Option Checker) (rule : Rule) (n : Net) : Option ReductionError :=
  match checker with
  | none => none
  | some check =>
    match check n with
    | .ok () => none
    | .error e => some (.rejected ("after " ++ rule.code ++ ": " ++ e.message))

/-- Records an applied step, if the net has become smaller and passes the check. -/
def commit (checker : Option Checker) (before : NetSize) (step : ReductionStep) : ReductionM Unit :=
  fun s =>
    if s.size.Smaller before then
      match objection? checker step.rule s.net with
      | none => .ok () { s with steps := s.steps ++ [step] }
      | some e => .error e s
    else .error (.notSmaller step.rule before s.size) s

/-- One rule that is tried at single anchors of type `ι`. -/
structure LocalRule (ι : Type) where
  /-- What the rule would act on. -/
  Match : Type
  match? : AcceptingNet → ι → Option Match
  /-- The step in the words of the report, told before the rule is applied. -/
  describe : Net → ι → Match → ReductionStep
  /-- Applies the rule; the answer is the neighbours that may match now. -/
  apply : ι → Match → ReductionM (List ι)

/-- Applies a rule at an anchor and commits the step. -/
def LocalRule.perform {ι : Type} (rule : LocalRule ι) (checker : Option Checker) (i : ι)
    (m : rule.Match) : ReductionM (List ι) := do
  let before ← get
  let neighbours ← rule.apply i m
  commit checker before.size (rule.describe before.net i m)
  return neighbours

theorem commit_smaller {checker : Option Checker} {before : NetSize} {step : ReductionStep}
    {s s' : Reduction} (h : commit checker before step s = .ok () s') :
    s'.size.Smaller before := by
  simp only [commit] at h
  split at h
  · rename_i hs
    split at h
    · cases h
      exact hs
    · cases h
  · cases h

theorem LocalRule.perform_smaller {ι : Type} {rule : LocalRule ι} {checker : Option Checker}
    {i : ι} {m : rule.Match} {s s' : Reduction} {l : List ι}
    (h : rule.perform checker i m s = .ok l s') : s'.size.Smaller s.size := by
  unfold LocalRule.perform at h
  rw [get_bind] at h
  obtain ⟨_, s₁, _, h⟩ := bind_eq_ok.1 h
  obtain ⟨_, s₂, hcommit, h⟩ := bind_eq_ok.1 h
  cases h
  exact commit_smaller hcommit

/-- `perform` with the proof that it leaves a smaller net, which is what ends the loop of `drain`. -/
def LocalRule.performed {ι : Type} (rule : LocalRule ι) (checker : Option Checker) (i : ι)
    (m : rule.Match) (s : Reduction) : { r : EStateM.Result ReductionError Reduction (List ι) //
      ∀ l s', r = .ok l s' → s'.size.Smaller s.size } :=
  ⟨rule.perform checker i m s, fun _ _ h => rule.perform_smaller h⟩

/-- Tries the anchors of the worklist one after the other until it is empty. The answer is how often
the rule was applied. -/
def drain {ι : Type} [DecidableEq ι] (rule : LocalRule ι) (checker : Option Checker)
    (queue : List ι) (applied : Nat) (s : Reduction) :
    EStateM.Result ReductionError Reduction Nat :=
  match queue with
  | [] => .ok applied s
  | i :: queue =>
    match rule.match? s.accepting i with
    | none => drain rule checker queue applied s
    | some m =>
      match rule.performed checker i m s with
      | ⟨.error e s', _⟩ => .error e s'
      | ⟨.ok neighbours s', _⟩ => drain rule checker (enqueue queue neighbours) (applied + 1) s'
termination_by (s.size.places, s.size.transitions, s.size.arcs, queue.length)
decreasing_by
  · simp only [Prod.lex_def]
    simp
  · rename_i hsmaller
    have hs := hsmaller _ _ rfl
    simp only [NetSize.Smaller] at hs
    simp only [Prod.lex_def]
    omega

section Drain

variable {ι : Type} [DecidableEq ι] {rule : LocalRule ι} {checker : Option Checker} {i : ι}
  {queue : List ι} {applied : Nat} {s s' : Reduction}

theorem drain_nil : drain rule checker [] applied s = .ok applied s := by
  rw [drain.eq_def]

theorem drain_cons_of_none (h : rule.match? s.accepting i = none) :
    drain rule checker (i :: queue) applied s = drain rule checker queue applied s := by
  rw [drain.eq_def]
  simp only [h]

theorem drain_cons_of_ok {m : rule.Match} {neighbours : List ι}
    (h : rule.match? s.accepting i = some m)
    (hperform : rule.perform checker i m s = .ok neighbours s') :
    drain rule checker (i :: queue) applied s =
      drain rule checker (enqueue queue neighbours) (applied + 1) s' := by
  have hperformed : rule.performed checker i m s =
      ⟨.ok neighbours s', fun _ _ he => rule.perform_smaller (hperform.trans he)⟩ := Subtype.ext hperform
  rw [drain.eq_def]
  simp only [h, hperformed]

theorem drain_cons_of_error {m : rule.Match} {e : ReductionError}
    (h : rule.match? s.accepting i = some m) (hperform : rule.perform checker i m s = .error e s') :
    drain rule checker (i :: queue) applied s = .error e s' := by
  have hperformed : rule.performed checker i m s = ⟨.error e s', nofun⟩ := Subtype.ext hperform
  rw [drain.eq_def]
  simp only [h, hperformed]

/-- The turns of the loop, one case for each. -/
theorem drain_induction (rule : LocalRule ι) (checker : Option Checker)
    {motive : List ι → Nat → Reduction → Prop}
    (nil : ∀ applied s, motive [] applied s)
    (idle : ∀ applied s i queue, rule.match? s.accepting i = none →
      motive queue applied s → motive (i :: queue) applied s)
    (error : ∀ applied s i queue m, rule.match? s.accepting i = some m →
      ∀ e s', rule.perform checker i m s = .error e s' → motive (i :: queue) applied s)
    (ok : ∀ applied s i queue m, rule.match? s.accepting i = some m →
      ∀ neighbours s', rule.perform checker i m s = .ok neighbours s' →
        motive (enqueue queue neighbours) (applied + 1) s' → motive (i :: queue) applied s)
    (queue : List ι) (applied : Nat) (s : Reduction) : motive queue applied s := by
  induction queue, applied, s using drain.induct rule checker with
  | case1 applied s => exact nil applied s
  | case2 applied s i queue hm ih => exact idle applied s i queue hm ih
  | case3 applied s i queue m hm e s' _ hp =>
    exact error applied s i queue m hm e s' (congrArg Subtype.val hp)
  | case4 applied s i queue m hm neighbours s' _ hp ih =>
    exact ok applied s i queue m hm neighbours s' (congrArg Subtype.val hp) ih

end Drain

/-- Runs a rule from all of the given anchors. -/
def run {ι : Type} [DecidableEq ι] (rule : LocalRule ι) (checker : Option Checker)
    (anchors : List ι) : ReductionM Nat :=
  drain rule checker (enqueue [] anchors) 0

/-! ## Counts and sizes -/

/-- On the way from `s` to `s'` the count of applications has grown from `k` to `k'` and the net has become
smaller, or neither has changed. -/
def Shrinks (k k' : Nat) (s s' : Reduction) : Prop :=
  k' = k ∧ s' = s ∨ k < k' ∧ s'.size.Smaller s.size

section Shrinks

variable {k k' k'' : Nat} {s s' s'' : Reduction}

theorem Shrinks.refl : Shrinks k k s s := .inl ⟨rfl, rfl⟩

theorem Shrinks.trans (h : Shrinks k k' s s') (h' : Shrinks k' k'' s' s'') : Shrinks k k'' s s'' := by
  rcases h with ⟨rfl, rfl⟩ | ⟨hk, hs⟩
  · exact h'
  · rcases h' with ⟨rfl, rfl⟩ | ⟨hk', hs'⟩
    · exact .inr ⟨hk, hs⟩
    · exact .inr ⟨Nat.lt_trans hk hk', hs'.trans hs⟩

theorem Shrinks.add (j : Nat) (h : Shrinks k k' s s') : Shrinks (j + k) (j + k') s s' :=
  h.imp (And.imp_left (congrArg _)) (And.imp_left fun hk => Nat.add_lt_add_left hk j)

theorem Shrinks.smaller (h : Shrinks 0 k s s') (hk : k ≠ 0) : s'.size.Smaller s.size := by
  rcases h with ⟨rfl, _⟩ | ⟨_, hs⟩
  · exact absurd rfl hk
  · exact hs

/-- Each application that `drain` counts makes the net smaller. -/
theorem shrinks_drain {ι : Type} [DecidableEq ι] {rule : LocalRule ι} {checker : Option Checker}
    {queue : List ι} {applied : Nat} (h : drain rule checker queue applied s = .ok k s') :
    Shrinks applied k s s' := by
  induction queue, applied, s using drain_induction rule checker with
  | nil applied s =>
    rw [drain_nil] at h
    cases h
    exact .refl
  | idle applied s i queue hm ih =>
    rw [drain_cons_of_none hm] at h
    exact ih h
  | error applied s i queue m hm e s₁ hp =>
    rw [drain_cons_of_error hm hp] at h
    cases h
  | ok applied s i queue m hm neighbours s₁ hp ih =>
    rw [drain_cons_of_ok hm hp] at h
    have hfirst : Shrinks applied (applied + 1) s s₁ :=
      .inr ⟨Nat.lt_succ_self _, LocalRule.perform_smaller hp⟩
    exact hfirst.trans (ih h)

theorem shrinks_run {ι : Type} [DecidableEq ι] {rule : LocalRule ι} {checker : Option Checker}
    {anchors : List ι} (h : run rule checker anchors s = .ok k s') : Shrinks 0 k s s' :=
  shrinks_drain h

end Shrinks

end ProcessNet.Reduction
