/-
The report of a reduction. The counts that the passes add up are those of the recorded steps; and since
each step removes what it reports, the report accounts for all nodes that are gone.
-/
import ProcessNet.Proofs.Reduction.Bound
import ProcessNet.Proofs.Reduction.Exhaustion
import ProcessNet.Proofs.Reduction.Removal

namespace ProcessNet

/-! ## Counts by rule -/

namespace ReductionStep

/-- How many of the steps are by the rule. -/
def countOf (steps : List ReductionStep) (rule : Rule) : Nat := steps.countP (·.rule = rule)

/-- The rules of the steps, each with its count. -/
def tallied (steps : List ReductionStep) : List (Rule × Nat) :=
  (Rule.order.map fun rule => (rule, countOf steps rule)).filter (·.2 ≠ 0)

variable {steps more : List ReductionStep} {rule : Rule} {k : Nat}

theorem mem_order (rule : Rule) : rule ∈ Rule.order := by
  cases rule <;> decide

theorem mem_tallied : (rule, k) ∈ tallied steps ↔ k = countOf steps rule ∧ k ≠ 0 := by
  rw [tallied, List.mem_filter, List.mem_map, decide_eq_true_iff]
  refine and_congr_left fun _ => ⟨?_, fun h => ⟨rule, mem_order rule, h ▸ rfl⟩⟩
  rintro ⟨_, _, h⟩
  cases h
  rfl

theorem nodup_tallied (steps : List ReductionStep) : ((tallied steps).map (·.1)).Nodup := by
  refine List.Sublist.nodup (List.filter_sublist.map _) ?_
  rw [List.map_map]
  exact (List.map_id Rule.order).symm ▸ (by decide : Rule.order.Nodup)

theorem lookup_tallied : ((tallied steps).lookup rule).getD 0 = countOf steps rule := by
  cases hlookup : (tallied steps).lookup rule with
  | none =>
    -- a rule with steps is not left out
    by_contra hne
    have hmem : (rule, countOf steps rule) ∈ tallied steps := mem_tallied.2 ⟨rfl, Ne.symm hne⟩
    exact bne_iff_ne.1 (List.lookup_eq_none_iff.1 hlookup _ hmem) rfl
  | some k =>
    obtain ⟨before, after, hsplit, -⟩ := List.lookup_eq_some_iff.1 hlookup
    have hmem : (rule, k) ∈ tallied steps := hsplit ▸ List.mem_append_right _ List.mem_cons_self
    exact (mem_tallied.1 hmem).1

/-- To `tally` the answer of a turn is to count its steps in. -/
theorem tally_tallied (hmore : ∀ step ∈ more, step.rule = rule) :
    Reduction.tally rule more.length (tallied steps) = tallied (steps ++ more) := by
  have hcount : ∀ x, countOf more x = if x = rule then more.length else 0 := fun x => by
    unfold countOf
    split
    · rename_i hx
      exact List.countP_eq_length.2 fun step hstep => decide_eq_true ((hmore step hstep).trans hx.symm)
    · rename_i hx
      exact List.countP_eq_zero.2 fun step hstep => by simpa [hmore step hstep] using Ne.symm hx
  unfold Reduction.tally
  simp only [lookup_tallied, ← hcount]
  simp only [tallied, countOf, List.countP_append]

end ReductionStep

namespace Reduction

open ReductionStep

variable {checker : Option Checker} {rule : Rule} {s s' : Reduction}

/-! ## Passes -/

variable {options : ReductionOptions} {counts counts' : Counts}

theorem tallied_of_turn (hs : s.net.Consistent) (hcounts : counts.applied = tallied s.steps)
    (hrun : turn options counts rule s = .ok counts' s') :
    s'.net.Consistent ∧ counts'.applied = tallied s'.steps := by
  cases hruns : options.runs s.size rule with
  | false =>
    rw [turn_of_not_runs hruns] at hrun
    cases hrun
    exact ⟨hs, hcounts⟩
  | true =>
    have hsteps := (length_of_turn hs hrun).1
    unfold turn at hrun
    rw [get_bind, if_pos hruns] at hrun
    obtain ⟨j, s₁, hrule, hpure⟩ := bind_eq_ok.1 hrun
    cases hpure
    obtain ⟨more, hmore, rfl, hrules⟩ := took_runRule hs hrule
    refine ⟨hsteps, ?_⟩
    rw [Counts.add, hcounts, tally_tallied hrules, hmore]

/-- Counts that tell the steps on record still do so after a `pass`. -/
theorem tallied_of_pass (hs : s.net.Consistent)
    (hrun : pass options (tallied s.steps) s = .ok counts s') :
    s'.net.Consistent ∧ counts.applied = tallied s'.steps := by
  have hends : Ends (fun (counts : Counts) s' => s'.net.Consistent ∧ counts.applied = tallied s'.steps)
      (fun _ _ => True) (pass options (tallied s.steps) s) := by
    refine Ends.foldlM (C := fun _ (counts : Counts) (s : Reduction) =>
      s.net.Consistent ∧ counts.applied = tallied s.steps) ?_ ⟨hs, rfl⟩
    rintro rule _ counts₁ s₁ ⟨hs₁, hcounts⟩
    cases hturn : turn options counts₁ rule s₁ with
    | ok counts₂ s₂ => exact tallied_of_turn hs₁ hcounts hturn
    | error e s₂ => trivial
  rw [hrun] at hends
  exact hends

theorem tallied_of_passes {made made' : Nat} {applied : List (Rule × Nat)} (hs : s.net.Consistent)
    (hrun : passes options made (tallied s.steps) s = .ok (made', applied) s') :
    applied = tallied s'.steps := by
  generalize happlied : tallied s.steps = applied₀ at hrun
  induction made, applied₀, s using passes_induction options with
  | error made applied₀ s e s₁ hp =>
    rw [passes_of_error hp] at hrun
    cases hrun
  | idle made applied₀ s counts s₁ hp hidle =>
    subst happlied
    rw [passes_of_ok hp, if_pos hidle] at hrun
    cases hrun
    exact (tallied_of_pass hs hp).2
  | again made applied₀ s counts s₁ hp hnonidle ih =>
    subst happlied
    obtain ⟨hs₁, hcounts⟩ := tallied_of_pass hs hp
    rw [passes_of_ok hp, if_neg hnonidle] at hrun
    exact ih hs₁ hcounts.symm hrun

end Reduction

/-! ## The report -/

namespace ReductionStep

/-- The removed places by rule: one for each step of `FST`, `FSP`, `A` and `ELP`, and those that `FPP`
merged. -/
theorem length_removedPlaces (steps : List ReductionStep) :
    (steps.flatMap removedPlaces).length =
      countOf steps .fst + countOf steps .fsp + countOf steps .a + countOf steps .elp +
        (steps.flatMap mergedPlaces).length := by
  induction steps with
  | nil => rfl
  | cons step steps ih =>
    rw [List.flatMap_cons, List.flatMap_cons, List.length_append, List.length_append, ih]
    simp only [countOf, List.countP_cons]
    cases step <;> simp [rule, removedPlaces, mergedPlaces] <;> omega

/-- The removed transitions by rule: one for each step of `FST`, `FSP`, `A` and `ELT`, and those that
`FPT` merged. -/
theorem length_removedTransitions (steps : List ReductionStep) :
    (steps.flatMap removedTransitions).length =
      countOf steps .fst + countOf steps .fsp + countOf steps .a + countOf steps .elt +
        (steps.flatMap mergedTransitions).length := by
  induction steps with
  | nil => rfl
  | cons step steps ih =>
    rw [List.flatMap_cons, List.flatMap_cons, List.length_append, List.length_append, ih]
    simp only [countOf, List.countP_cons]
    cases step <;> simp [rule, removedTransitions, mergedTransitions] <;> omega

end ReductionStep

namespace AcceptingNet

open Reduction ReductionStep

/-- The report of `reduce` accounts for all of it. Each rule that was applied stands in it with the
number of its steps, and no other one; the steps tell by how much the places and the transitions have
become fewer; and the nodes that are gone are just those that are reported as removed, each of them once.
-/
theorem reduce_accounts (a : AcceptingNet) (options : ReductionOptions)
    (hnet : a.net.checkConsistency = .ok ()) (hnodup : a.net.arcs.Nodup) {b : AcceptingNet}
    {report : ReductionReport} (h : a.reduce options = ⟨b, .ok report⟩) :
    ((report.applied.map (·.1)).Nodup ∧
      ∀ rule k, (rule, k) ∈ report.applied ↔ k = countOf report.steps rule ∧ k ≠ 0) ∧
    a.net.placeCount = b.net.placeCount + (report.count .fst + report.count .fsp + report.count .a +
      report.count .elp + (report.steps.flatMap mergedPlaces).length) ∧
    a.net.transitionCount = b.net.transitionCount + (report.count .fst + report.count .fsp +
      report.count .a + report.count .elt + (report.steps.flatMap mergedTransitions).length) ∧
    Lost Place.name (report.steps.flatMap removedPlaces) a.net.place? b.net.place? ∧
    Lost Transition.name (report.steps.flatMap removedTransitions) a.net.transition? b.net.transition? := by
  have hstart : ({ accepting := a } : Reduction).net.Consistent :=
    (Net.consistent_iff_checkConsistency hnodup).2 hnet
  obtain ⟨s, hrun, rfl⟩ := complete_of_reduce h
  obtain ⟨hsteps, _, hpasses⟩ := passes_of_complete hrun
  have happlied : report.applied = tallied report.steps := by
    rw [hsteps]
    exact tallied_of_passes hstart hpasses
  have hcount : ∀ rule, report.count rule = countOf report.steps rule := fun rule => by
    rw [ReductionReport.count, happlied, lookup_tallied]
  have hends := ends_complete options hstart
  rw [hrun] at hends
  obtain ⟨l, hl, hstripped⟩ := Rewrites.stripped hstart hends.2
  -- the steps on the way are those of the report
  rw [List.nil_append, ← hsteps] at hl
  subst hl
  refine ⟨?_, ?_, ?_, hstripped.places, hstripped.transitions⟩
  · rw [happlied]
    exact ⟨nodup_tallied _, fun _ _ => mem_tallied⟩
  · simp only [hcount, ← length_removedPlaces]
    exact hstripped.placeCount
  · simp only [hcount, ← length_removedTransitions]
    exact hstripped.transitionCount

/-- Three places and three transitions of the workshop are gone, and all of them are reported. -/
theorem workshop_accounts : workshop.net.placeCount = tidied.net.placeCount + 3 ∧
    workshop.net.transitionCount = tidied.net.transitionCount + 3 ∧
    Lost Place.name ["start", "spare", "queue"] workshop.net.place? tidied.net.place? ∧
    Lost Transition.name ["open", "pass", "hand"] workshop.net.transition? tidied.net.transition? := by
  obtain ⟨-, hplaces, htransitions, hlost⟩ :=
    reduce_accounts workshop workshopOptions (by decide +kernel) (by decide) reduce_workshop
  exact ⟨hplaces, htransitions, hlost⟩

end AcceptingNet

end ProcessNet
