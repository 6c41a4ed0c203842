/-
The reduction of accepting nets. All rules take their turns again and again until none of them was
applied; a turn lasts until the rule matches nowhere.
-/
import ProcessNet.Net.Consistency
import ProcessNet.Reduction.Worklist

namespace ProcessNet

namespace Reduction

/-! ## The rules at single anchors -/

def seriesTransitions : LocalRule PlaceId where
  Match := AcceptingNet.SeriesTransitions
  match? := AcceptingNet.seriesTransitionsAt?
  describe n p m := .seriesTransitionsFused (n.placeName p) (n.transitionName m.second)
    (n.transitionName m.first)
  apply := fuseSeriesTransitions

def seriesPlaces : LocalRule TransitionId where
  Match := AcceptingNet.SeriesPlaces
  match? := AcceptingNet.seriesPlacesAt?
  describe n t m := .seriesPlacesFused (n.placeName m.first) (n.transitionName t)
    (n.placeName m.second)
  apply := fuseSeriesPlaces

def selfLoopTransitions : LocalRule TransitionId where
  Match := PlaceId
  match? := AcceptingNet.selfLoopTransitionAt?
  describe n t p := .selfLoopTransitionRemoved (n.transitionName t) (n.placeName p)
  apply := removeSelfLoopTransition

def selfLoopPlaces : LocalRule PlaceId where
  Match := Unit
  match? a p := if a.isSelfLoopPlace p then some () else none
  describe n p _ := .selfLoopPlaceRemoved (n.placeName p)
  apply p _ := removeSelfLoopPlace p

def silentSteps : LocalRule TransitionId where
  Match := AcceptingNet.SilentStep
  match? := AcceptingNet.silentStepAt?
  describe n t m := .abstracted (n.placeName m.place) (n.transitionName t)
  apply := skipSilentStep

/-! ## The rules at groups and arcs found beforehand -/

/-- Applies a change that `describe` tells, and commits the step. -/
def performOnce (checker : Option Checker) (describe : Net → ReductionStep)
    (change : ReductionM Unit) : ReductionM Unit := do
  let before ← get
  change
  commit checker before.size (describe before.net)

/-- Fuses each group of equal silent transitions; the answer is how many groups there were. -/
def runParallelTransitions (checker : Option Checker) : ReductionM Nat := do
  let groups := (← get).accepting.parallelTransitions
  groups.forM fun m =>
    performOnce checker
      (fun n => .parallelTransitionsFused (n.transitionName m.kept)
        (m.removed.map n.transitionName))
      (fuseParallelTransitions m)
  return groups.length

/-- Fuses each group of equal places; the answer is how many groups there were. -/
def runParallelPlaces (checker : Option Checker) : ReductionM Nat := do
  let groups := (← get).accepting.parallelPlaces
  groups.forM fun m =>
    performOnce checker
      (fun n => .parallelPlacesFused (n.placeName m.kept) (m.removed.map n.placeName))
      (fuseParallelPlaces m)
  return groups.length

/-- Removes the needless reset arcs of one transition; the answer is how many there were. -/
def runResetsAt (checker : Option Checker) (t : TransitionId) : ReductionM Nat := do
  let places := (← get).accepting.needlessResets t
  places.forM fun p =>
    performOnce checker (fun n => .resetArcRemoved (n.placeName p) (n.transitionName t))
      (removeReset p t)
  return places.length

/-- Removes all needless reset arcs. -/
def runResets (checker : Option Checker) : ReductionM Nat := do
  (← get).net.transitionIds.foldlM
    (fun total t => do return total + (← runResetsAt checker t)) 0

/-! ## Turns and passes -/

/-- Gives one rule its turn; the answer is how often it was applied. -/
def runRule (checker : Option Checker) (rule : Rule) : ReductionM Nat := do
  let n := (← get).net
  match rule with
  | .fst => run seriesTransitions checker n.placeIds
  | .fsp => run seriesPlaces checker n.transitionIds
  | .fpt => runParallelTransitions checker
  | .fpp => runParallelPlaces checker
  | .elt => run selfLoopTransitions checker n.transitionIds
  | .elp => run selfLoopPlaces checker n.placeIds
  | .a => run silentSteps checker n.transitionIds
  | .r => runResets checker

/-- Adds to the count of a rule; counts stand in the order of the rules, and none is zero. -/
def tally (rule : Rule) (k : Nat) (counts : List (Rule × Nat)) : List (Rule × Nat) :=
  let count := fun x => (counts.lookup x).getD 0 + if x = rule then k else 0
  (Rule.order.map fun x => (x, count x)).filter (·.2 ≠ 0)

/-- What is counted: how often each rule was applied in all passes, and how often any rule was in the pass
that is being made. -/
structure Counts where
  applied : List (Rule × Nat)
  inPass : Nat

/-- Counts in that the rule was applied `k` times. -/
def Counts.add (counts : Counts) (rule : Rule) (k : Nat) : Counts where
  applied := tally rule k counts.applied
  inPass := counts.inPass + k

/-- Gives a rule its turn, unless it is switched off or the net is too large for it. -/
def turn (options : ReductionOptions) (counts : Counts) (rule : Rule) : ReductionM Counts := do
  if options.runs (← get).size rule then
    let k ← runRule options.checker rule
    return counts.add rule k
  else return counts

/-- Gives each rule its turn. -/
def pass (options : ReductionOptions) (applied : List (Rule × Nat)) : ReductionM Counts :=
  Rule.order.foldlM (turn options) { applied, inPass := 0 }

section Shrinks

variable {checker : Option Checker} {k : Nat} {s s' : Reduction}

theorem smaller_of_performOnce {describe : Net → ReductionStep} {change : ReductionM Unit}
    (h : performOnce checker describe change s = .ok () s') : s'.size.Smaller s.size := by
  unfold performOnce at h
  rw [get_bind] at h
  obtain ⟨_, s₁, _, hcommit⟩ := bind_eq_ok.1 h
  exact commit_smaller hcommit

/-- A loop over groups or arcs that answers how many there were. -/
theorem shrinks_each {α : Type} {describe : α → Net → ReductionStep} {change : α → ReductionM Unit}
    {l : List α} (h : (do
      l.forM fun a => performOnce checker (describe a) (change a)
      return l.length : ReductionM Nat) s = .ok k s') : Shrinks 0 k s s' := by
  obtain ⟨_, s₁, hloop, hpure⟩ := bind_eq_ok.1 h
  cases hpure
  clear h
  induction l generalizing s with
  | nil =>
    cases hloop
    exact .refl
  | cons a l ih =>
    rw [List.forM] at hloop
    obtain ⟨_, s₁, ha, hl⟩ := bind_eq_ok.1 hloop
    have hfirst : Shrinks 0 1 s s₁ := .inr ⟨Nat.zero_lt_one, smaller_of_performOnce ha⟩
    rw [List.length_cons, Nat.add_comm]
    exact hfirst.trans ((ih hl).add 1)

/-- A loop that counts what its turns apply. -/
theorem shrinks_foldlM {α β : Type} (count : β → Nat) {f : β → α → ReductionM β} {l : List α}
    {b b' : β} (hf : ∀ b a s b' s', f b a s = .ok b' s' → Shrinks (count b) (count b') s s')
    (h : l.foldlM f b s = .ok b' s') : Shrinks (count b) (count b') s s' := by
  induction l generalizing b s with
  | nil =>
    cases h
    exact .refl
  | cons a l ih =>
    rw [List.foldlM_cons] at h
    obtain ⟨b₁, s₁, ha, hl⟩ := bind_eq_ok.1 h
    exact (hf b a s b₁ s₁ ha).trans (ih hl)

theorem shrinks_runResetsAt {t : TransitionId} (h : runResetsAt checker t s = .ok k s') :
    Shrinks 0 k s s' := by
  unfold runResetsAt at h
  rw [get_bind] at h
  exact shrinks_each h

theorem shrinks_resetsTurn {total total' : Nat} {t : TransitionId}
    (h : (do return total + (← runResetsAt checker t) : ReductionM Nat) s = .ok total' s') :
    Shrinks total total' s s' := by
  obtain ⟨j, s₁, hat, hpure⟩ := bind_eq_ok.1 h
  cases hpure
  exact (shrinks_runResetsAt hat).add total

/-- `runRule` answers how often the net became smaller. -/
theorem shrinks_runRule {rule : Rule} (h : runRule checker rule s = .ok k s') :
    Shrinks 0 k s s' := by
  unfold runRule at h
  rw [get_bind] at h
  cases rule with
  | fst => exact shrinks_run h
  | fsp => exact shrinks_run h
  | fpt =>
    dsimp only at h
    rw [runParallelTransitions, get_bind] at h
    exact shrinks_each h
  | fpp =>
    dsimp only at h
    rw [runParallelPlaces, get_bind] at h
    exact shrinks_each h
  | elt => exact shrinks_run h
  | elp => exact shrinks_run h
  | a => exact shrinks_run h
  | r =>
    dsimp only at h
    rw [runResets, get_bind] at h
    exact shrinks_foldlM id (fun _ _ _ _ _ => shrinks_resetsTurn) h

theorem shrinks_turn {options : ReductionOptions} {counts counts' : Counts} {rule : Rule}
    (h : turn options counts rule s = .ok counts' s') :
    Shrinks counts.inPass counts'.inPass s s' := by
  unfold turn at h
  rw [get_bind] at h
  split at h
  · obtain ⟨j, s₁, hrule, hpure⟩ := bind_eq_ok.1 h
    cases hpure
    exact (shrinks_runRule hrule).add counts.inPass
  · cases h
    exact .refl

/-- A pass leaves a smaller net if anything was applied in it, and else the net as it was. -/
theorem shrinks_pass {options : ReductionOptions} {applied : List (Rule × Nat)} {counts : Counts}
    (h : pass options applied s = .ok counts s') : Shrinks 0 counts.inPass s s' :=
  shrinks_foldlM Counts.inPass (fun _ _ _ _ _ => shrinks_turn) h

end Shrinks

/-- `pass` with the proof that it leaves a smaller net if anything was applied, which is what ends the loop of
`passes`. -/
def passed (options : ReductionOptions) (applied : List (Rule × Nat)) (s : Reduction) :
    { r : EStateM.Result ReductionError Reduction Counts //
      ∀ counts s', r = .ok counts s' → counts.inPass ≠ 0 → s'.size.Smaller s.size } :=
  ⟨pass options applied s, fun _ _ h => (shrinks_pass h).smaller⟩

/-- Makes passes until nothing is applied in one of them. The answer is the number of passes, and how often
each rule was applied. -/
def passes (options : ReductionOptions) (made : Nat) (applied : List (Rule × Nat)) (s : Reduction) :
    EStateM.Result ReductionError Reduction (Nat × List (Rule × Nat)) :=
  match passed options applied s with
  | ⟨.error e s', _⟩ => .error e s'
  | ⟨.ok counts s', _⟩ =>
    if counts.inPass = 0 then .ok (made + 1, counts.applied) s'
    else passes options (made + 1) counts.applied s'
termination_by (s.size.places, s.size.transitions, s.size.arcs)
decreasing_by
  rename_i hsmaller happlied
  have hs := hsmaller _ _ rfl happlied
  simp only [NetSize.Smaller] at hs
  simp only [Prod.lex_def]
  omega

section Passes

variable {options : ReductionOptions} {made : Nat} {applied : List (Rule × Nat)} {s s' : Reduction}

theorem passes_of_error {e : ReductionError} (h : pass options applied s = .error e s') :
    passes options made applied s = .error e s' := by
  have hpassed : passed options applied s = ⟨.error e s', nofun⟩ := Subtype.ext h
  rw [passes.eq_def, hpassed]

theorem passes_of_ok {counts : Counts} (h : pass options applied s = .ok counts s') :
    passes options made applied s =
      if counts.inPass = 0 then .ok (made + 1, counts.applied) s'
      else passes options (made + 1) counts.applied s' := by
  have hpassed : passed options applied s =
      ⟨.ok counts s', fun _ _ he => (shrinks_pass (h.trans he)).smaller⟩ := Subtype.ext h
  rw [passes.eq_def, hpassed]

/-- The passes of the loop: one that fails, one in which nothing is applied, and one that is followed by
another one. -/
theorem passes_induction (options : ReductionOptions)
    {motive : Nat → List (Rule × Nat) → Reduction → Prop}
    (error : ∀ made applied s e s', pass options applied s = .error e s' → motive made applied s)
    (idle : ∀ made applied s counts s', pass options applied s = .ok counts s' →
      counts.inPass = 0 → motive made applied s)
    (again : ∀ made applied s counts s', pass options applied s = .ok counts s' →
      counts.inPass ≠ 0 → motive (made + 1) counts.applied s' → motive made applied s)
    (made : Nat) (applied : List (Rule × Nat)) (s : Reduction) : motive made applied s := by
  induction made, applied, s using passes.induct options with
  | case1 made applied s e s' _ hp => exact error made applied s e s' (congrArg Subtype.val hp)
  | case2 made applied s counts s' _ hp hidle =>
    exact idle made applied s counts s' (congrArg Subtype.val hp) hidle
  | case3 made applied s counts s' _ hp happlied ih =>
    exact again made applied s counts s' (congrArg Subtype.val hp) happlied ih

end Passes

/-- Makes all passes and checks the result. -/
def complete (options : ReductionOptions) : ReductionM ReductionReport := do
  let (made, applied) ← passes options 0 []
  let s ← get
  match s.net.checkConsistency with
  | .ok () => return { steps := s.steps, passes := made, applied }
  | .error e => throw (.net e)

end Reduction

/-- The outcome of a reduction: the net that it left, and its report unless it stopped early. -/
structure ReductionOutcome where
  accepting : AcceptingNet
  report : Except ReductionError ReductionReport

/-- Reduces the net and its markings until no rule applies any more. -/
def AcceptingNet.reduce (a : AcceptingNet) (options : ReductionOptions) : ReductionOutcome :=
  match Reduction.complete options { accepting := a } with
  | .ok report s => ⟨s.accepting, .ok report⟩
  | .error e s => ⟨s.accepting, .error e⟩

end ProcessNet
