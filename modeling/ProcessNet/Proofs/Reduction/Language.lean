/-
What a reduction keeps. Until a self-loop place is removed, the net with its markings accepts the same
label sequences as at the start: at the end of the reduction, whenever the checker is called, and in
the state that is left behind when the checker objects. If a self-loop place is ever removed, nothing
was accepted at the start.
-/
import Mathlib
import ProcessNet.Proofs.Reduction.Faithful

namespace ProcessNet

namespace Reduction

/-- The first letter of a rule's name and what is behind it tell the rule. -/
theorem code_append_inj {r₁ r₂ : Rule} {x y : String}
    (h : "after " ++ r₁.code ++ ": " ++ x = "after " ++ r₂.code ++ ": " ++ y) : r₁ = r₂ := by
  have hlist := congrArg String.toList h
  revert hlist
  cases r₁ <;> cases r₂ <;> simp [Rule.code]

theorem rejection_inj {r₁ r₂ : Rule} {e₁ e₂ : ReductionError}
    (h : rejection r₁ e₁ = rejection r₂ e₂) : r₁ = r₂ := by
  unfold rejection at h
  exact code_append_inj (ReductionError.rejected.inj h)

end Reduction

namespace AcceptingNet

open Reduction

/-- The checker that objects to the net `n` and judges any other net as `checker` does. -/
def objectingTo (checker : Option Checker) (n : Net) : Checker := fun m =>
  if m = n then .error (.rejected "")
  else match checker with
    | some check => check m
    | none => .ok ()

/-- In the reduction of `a` the checker is called in the state `s`, after a step by `rule`: if it
objected to the net there, the reduction would stop in this state. No net comes up twice, because
every step makes the net smaller. -/
def ConsultedAt (a : AcceptingNet) (options : ReductionOptions) (rule : Rule) (s : Reduction) :
    Prop :=
  complete { options with checker := some (objectingTo options.checker s.net) } { accepting := a }
    = .error (rejection rule (.rejected "")) s

theorem wellFormed_of_checkConsistency {a : AcceptingNet} (hnet : a.net.checkConsistency = .ok ())
    (hnodup : a.net.arcs.Nodup) (hinitial : a.initial.Canonical) (hfinal : a.final.Canonical) :
    a.WellFormed :=
  ⟨(Net.consistent_iff_checkConsistency hnodup).2 hnet, hinitial, hfinal⟩

theorem faithful_of_complete {a : AcceptingNet} {options : ReductionOptions}
    {report : ReductionReport} {s : Reduction} (h : a.WellFormed)
    (hrun : complete options { accepting := a } = .ok report s) :
    report.steps = s.steps ∧ Faithful a s := by
  have hends := ends_faithful options h
  rw [hrun] at hends
  exact hends

/-- The state that `reduce` leaves behind when the checker objects. -/
theorem language_of_rejection {a : AcceptingNet} {options : ReductionOptions} {rule : Rule}
    {e : ReductionError} {s : Reduction} (h : a.WellFormed)
    (hrun : complete options { accepting := a } = .error (rejection rule e) s)
    (hrule : rule ≠ .elp) (hsteps : .elp ∉ s.rules) (w : List String) :
    a.Accepts w ↔ s.accepting.Accepts w := by
  have hends := ends_faithful options h
  rw [hrun] at hends
  rcases hends with ⟨he, _⟩ | ⟨check, step, e', _, _, he, hs⟩
  · cases he
  · have hstep : rule = step.rule := rejection_inj he
    refine hs.language (fun hmem => ?_) w
    rcases mem_rules_record.1 hmem with hmem | hmem
    · exact hsteps hmem
    · exact hrule (hstep.trans hmem.symm)

/-- `reduce` keeps the language: at its end, at every call of the checker, and in the state that an
objection leaves behind, as long as `ELP` was not applied. -/
theorem reduce_keeps_language (a : AcceptingNet) (options : ReductionOptions)
    (hnet : a.net.checkConsistency = .ok ()) (hnodup : a.net.arcs.Nodup)
    (hinitial : a.initial.Canonical) (hfinal : a.final.Canonical) :
    (∀ b report, a.reduce options = ⟨b, .ok report⟩ →
      .elp ∉ report.steps.map ReductionStep.rule → ∀ w, a.Accepts w ↔ b.Accepts w) ∧
    (∀ rule s, a.ConsultedAt options rule s → rule ≠ .elp → .elp ∉ s.rules →
      ∀ w, a.Accepts w ↔ s.accepting.Accepts w) ∧
    (∀ rule e s, complete options { accepting := a } = .error (rejection rule e) s →
      rule ≠ .elp → .elp ∉ s.rules → ∀ w, a.Accepts w ↔ s.accepting.Accepts w) := by
  have h := wellFormed_of_checkConsistency hnet hnodup hinitial hfinal
  refine ⟨fun b report hb hsteps => ?_, fun rule s hs hrule hsteps => ?_,
    fun rule e s hs hrule hsteps => ?_⟩
  · unfold reduce at hb
    split at hb
    · rename_i report' s hrun
      cases hb
      obtain ⟨hreport, hs⟩ := faithful_of_complete h hrun
      rw [hreport] at hsteps
      exact hs.language hsteps
    · cases hb
  · exact language_of_rejection h hs hrule hsteps
  · exact language_of_rejection h hs hrule hsteps

/-- Work that is handed on by a silent transition. -/
def handover : AcceptingNet where
  net := {
    name := "handover"
    places := ⟨[some { name := "before" }, some { name := "between" }, some { name := "behind" }]⟩
    transitions := ⟨[some { name := "work", label := some "work" }, some { name := "pass" }]⟩
    incidence := {
      arcs := [.input ⟨0⟩ ⟨0⟩, .output ⟨0⟩ ⟨1⟩, .input ⟨1⟩ ⟨1⟩, .output ⟨1⟩ ⟨2⟩]
      byPlace := ⟨[[(⟨0⟩, .input)], [(⟨0⟩, .output), (⟨1⟩, .input)], [(⟨1⟩, .output)]]⟩
      byTransition := ⟨[[(⟨0⟩, .input), (⟨1⟩, .output)], [(⟨1⟩, .input), (⟨2⟩, .output)]]⟩ }
    placeNames := ⟨[("before", ⟨0⟩), ("between", ⟨1⟩), ("behind", ⟨2⟩)]⟩
    transitionNames := ⟨[("work", ⟨0⟩), ("pass", ⟨1⟩)]⟩ }
  initial := ⟨[(⟨0⟩, 1)]⟩
  final := ⟨[(⟨2⟩, 1)]⟩

/-- The same work without the silent transition. -/
def direct : AcceptingNet where
  net := {
    name := "handover"
    places := ⟨[some { name := "before" }, none, some { name := "behind" }]⟩
    transitions := ⟨[some { name := "work", label := some "work" }, none]⟩
    incidence := {
      arcs := [.input ⟨0⟩ ⟨0⟩, .output ⟨0⟩ ⟨2⟩]
      byPlace := ⟨[[(⟨0⟩, .input)], [], [(⟨0⟩, .output)]]⟩
      byTransition := ⟨[[(⟨0⟩, .input), (⟨2⟩, .output)], []]⟩ }
    placeNames := ⟨[("before", ⟨0⟩), ("behind", ⟨2⟩)]⟩
    transitionNames := ⟨[("work", ⟨0⟩)]⟩ }
  initial := ⟨[(⟨0⟩, 1)]⟩
  final := ⟨[(⟨2⟩, 1)]⟩

theorem handover_keeps_language : handover.Accepts ["work"] ↔ direct.Accepts ["work"] :=
  (reduce_keeps_language handover {} (by decide) (by decide) ⟨by decide, by decide⟩
    ⟨by decide, by decide⟩).1 direct
    ⟨[.seriesTransitionsFused "between" "pass" "work"], 2, [(.fst, 1)]⟩
    (by cbv) (by decide)
    ["work"]

end AcceptingNet

end ProcessNet
