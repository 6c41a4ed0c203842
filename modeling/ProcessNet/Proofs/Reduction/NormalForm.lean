/-
A reduction that succeeds ends in a normal form. A turn that applies nothing has found no match, and has
left everything as it was. So the last pass, in which nothing is applied, has seen the final net only, and
found no match for any of its rules. Another reduction with the same options finds none either.
-/
import ProcessNet.Proofs.Reduction.Bound

namespace ProcessNet

namespace AcceptingNet

/-- Some node or some pair of nodes matches the rule. -/
def Matches (a : AcceptingNet) : Rule → Prop
  | .fst => ∃ p, a.seriesTransitionsAt? p ≠ none
  | .fsp => ∃ t, a.seriesPlacesAt? t ≠ none
  | .fpt => ∃ t u, t ≠ u ∧ a.net.isSilent t ∧ a.net.isSilent u ∧
      a.transitionShape t = a.transitionShape u
  | .fpp => ∃ p q, p ≠ q ∧ a.net.hasPlace p ∧ a.net.hasPlace q ∧ a.placeShape p = a.placeShape q
  | .elt => ∃ t, a.selfLoopTransitionAt? t ≠ none
  | .elp => ∃ p, a.isSelfLoopPlace p
  | .a => ∃ t, a.silentStepAt? t ≠ none
  | .r => ∃ t, a.net.hasTransition t ∧ a.needlessResets t ≠ []

/-- No rule matches that would have its turn. -/
def Normal (a : AcceptingNet) (options : ReductionOptions) : Prop :=
  ∀ rule, options.runs a.net.measure rule → ¬ a.Matches rule

/-! ## Groups -/

/-- Two elements with equal keys are in one group of `duplicates`. -/
theorem exists_mem_duplicates {ι κ : Type} [DecidableEq ι] [DecidableEq κ] {key : ι → κ}
    {l : List ι} {i j : ι} (hi : i ∈ l) (hj : j ∈ l) (hkey : key i = key j) (hne : i ≠ j) :
    ∃ m ∈ duplicates key l, i ∈ m.kept :: m.removed ∧ j ∈ m.kept :: m.removed := by
  have himem : i ∈ l.filter (key · = key i) := List.mem_filter.2 ⟨hi, decide_eq_true rfl⟩
  have hjmem : j ∈ l.filter (key · = key i) := List.mem_filter.2 ⟨hj, decide_eq_true hkey.symm⟩
  -- the first of those with this key leads a group
  cases hfilter : l.filter (key · = key i) with
  | nil => rw [hfilter] at himem; cases himem
  | cons kept removed =>
    have hkept : kept ∈ l.filter (key · = key i) := hfilter ▸ List.mem_cons_self
    obtain ⟨hmem, hkeptKey⟩ := List.mem_filter.1 hkept
    rw [hfilter] at himem hjmem
    have hremoved : removed ≠ [] := by
      rintro rfl
      exact hne ((List.mem_singleton.1 himem).trans (List.mem_singleton.1 hjmem).symm)
    have hleads : groupLedBy? key l kept = some ⟨kept, removed⟩ := by
      unfold groupLedBy?
      rw [of_decide_eq_true hkeptKey, hfilter]
      exact if_pos ⟨rfl, hremoved⟩
    exact ⟨_, List.mem_filterMap.2 ⟨kept, hmem, hleads⟩, himem, hjmem⟩

theorem duplicates_eq_nil_iff {ι κ : Type} [DecidableEq ι] [DecidableEq κ] {key : ι → κ}
    {l : List ι} (hl : l.Nodup) :
    duplicates key l = [] ↔ ∀ i ∈ l, ∀ j ∈ l, key i = key j → i = j := by
  constructor
  · intro hnil i hi j hj hkey
    by_contra hne
    obtain ⟨m, hm, _⟩ := exists_mem_duplicates hi hj hkey hne
    rw [hnil] at hm
    cases hm
  · intro h
    refine List.eq_nil_iff_forall_not_mem.2 fun m hm => ?_
    obtain ⟨d, l', hd⟩ := List.exists_cons_of_ne_nil (mem_duplicates hm).2
    have hmem : d ∈ m.kept :: m.removed := List.mem_cons_of_mem _ (hd ▸ List.mem_cons_self)
    obtain ⟨hk, _⟩ := key_of_mem_duplicates hm List.mem_cons_self
    obtain ⟨hd', hkey⟩ := key_of_mem_duplicates hm hmem
    have hnodup := (List.nodup_cons.1 (nodup_of_mem_duplicates hl hm)).1
    exact hnodup (h d hd' _ hk hkey ▸ hd ▸ List.mem_cons_self)

variable {a : AcceptingNet}

theorem parallelTransitions_eq_nil_iff : a.parallelTransitions = [] ↔ ¬ a.Matches .fpt := by
  rw [parallelTransitions,
    duplicates_eq_nil_iff ((Net.nodup_transitionIds a.net).filter _)]
  have hmem : ∀ t, t ∈ a.net.transitionIds.filter a.net.isSilent ↔ a.net.isSilent t := fun t =>
    List.mem_filter.trans
      (and_iff_right_of_imp fun ht => Net.mem_transitionIds.2 (Net.isSilent_iff.1 ht).1)
  simp only [hmem, Matches, not_exists, not_and]
  exact forall_congr' fun t => ⟨fun h u hne ht hu hs => hne (h ht u hu hs),
    fun h ht u hu hs => by_contra fun hne => h u hne ht hu hs⟩

theorem parallelPlaces_eq_nil_iff : a.parallelPlaces = [] ↔ ¬ a.Matches .fpp := by
  rw [parallelPlaces, duplicates_eq_nil_iff (Net.nodup_placeIds a.net)]
  simp only [Net.mem_placeIds, Matches, not_exists, not_and]
  exact forall_congr' fun p => ⟨fun h q hne hp hq hs => hne (h hp q hq hs),
    fun h hp q hq hs => by_contra fun hne => h q hne hp hq hs⟩

/-! ## Single anchors -/

theorem hasPlace_of_seriesTransitionsAt? {p : PlaceId} (h : a.seriesTransitionsAt? p ≠ none) :
    a.net.hasPlace p := by
  by_contra hnot
  refine h (if_pos ?_)
  rw [Bool.eq_false_of_not_eq_true hnot]
  rfl

theorem isSilent_of_seriesPlacesAt? {t : TransitionId} (h : a.seriesPlacesAt? t ≠ none) :
    a.net.isSilent t := by
  by_contra hnot
  refine h (if_pos ?_)
  rw [Bool.eq_false_of_not_eq_true hnot]
  rfl

theorem isSilent_of_selfLoopTransitionAt? {t : TransitionId}
    (h : a.selfLoopTransitionAt? t ≠ none) : a.net.isSilent t := by
  by_contra hnot
  refine h (if_pos ?_)
  rw [Bool.eq_false_of_not_eq_true hnot]
  rfl

theorem isSilent_of_silentStepAt? {t : TransitionId} (h : a.silentStepAt? t ≠ none) :
    a.net.isSilent t := by
  by_contra hnot
  refine h (if_pos ?_)
  rw [Bool.eq_false_of_not_eq_true hnot]
  rfl

theorem hasPlace_of_isSelfLoopPlace {p : PlaceId} (h : a.isSelfLoopPlace p) : a.net.hasPlace p := by
  simp only [isSelfLoopPlace, Bool.and_eq_true] at h
  exact h.1.1.1.1.1

end AcceptingNet

namespace Reduction

open AcceptingNet

/-! ## Turns that find nothing -/

variable {checker : Option Checker} {s s' : Reduction}

theorem Shrinks.eq_of_idle {k : Nat} (h : Shrinks k k s s') : s' = s := by
  rcases h with ⟨_, hs⟩ | ⟨hk, _⟩
  · exact hs
  · exact absurd hk (Nat.lt_irrefl k)

theorem Shrinks.le {k k' : Nat} (h : Shrinks k k' s s') : k ≤ k' := by
  rcases h with ⟨rfl, _⟩ | ⟨hk, _⟩
  · exact Nat.le_refl _
  · exact hk.le

theorem mem_enqueue {ι : Type} [DecidableEq ι] {queue more : List ι} {i : ι} :
    i ∈ enqueue queue more ↔ i ∈ queue ∨ i ∈ more := by
  unfold enqueue
  induction more generalizing queue with
  | nil => simp
  | cons j more ih =>
    rw [List.foldl_cons, ih]
    split
    · rename_i hj
      simp only [List.mem_cons]
      constructor
      · rintro (h | h)
        · exact .inl h
        · exact .inr (.inr h)
      · rintro (h | rfl | h)
        · exact .inl h
        · exact .inl hj
        · exact .inr h
    · rw [List.mem_append, List.mem_singleton, List.mem_cons, or_assoc]

/-- If `drain` has applied nothing, the rule matches at no anchor of the worklist. -/
theorem idle_of_drain {ι : Type} [DecidableEq ι] {rule : LocalRule ι} {queue : List ι}
    {applied : Nat} (h : drain rule checker queue applied s = .ok applied s') :
    ∀ i ∈ queue, rule.match? s.accepting i = none := by
  induction queue with
  | nil => exact List.forall_mem_nil _
  | cons i queue ih =>
    cases hm : rule.match? s.accepting i with
    | none =>
      rw [drain_cons_of_none hm] at h
      exact List.forall_mem_cons.2 ⟨hm, ih h⟩
    | some m =>
      cases hp : rule.perform checker i m s with
      | error e s₁ =>
        rw [drain_cons_of_error hm hp] at h
        cases h
      | ok neighbours s₁ =>
        -- an application is counted, and what is counted stays so
        rw [drain_cons_of_ok hm hp] at h
        exact absurd (shrinks_drain h).le (Nat.not_succ_le_self applied)

theorem idle_of_run {ι : Type} [DecidableEq ι] {rule : LocalRule ι} {anchors : List ι}
    (h : run rule checker anchors s = .ok 0 s') : ∀ i ∈ anchors, rule.match? s.accepting i = none :=
  fun i hi => idle_of_drain h i (mem_enqueue.2 (.inr hi))

/-- If `foldlM` counts nothing in a loop, each turn counts nothing, and all of them meet the same state. -/
theorem idle_of_foldlM {α β : Type} (count : β → Nat) {f : β → α → ReductionM β} {l : List α}
    {b b' : β} (hf : ∀ b a s b' s', f b a s = .ok b' s' → Shrinks (count b) (count b') s s')
    (h : l.foldlM f b s = .ok b' s') (hidle : count b' = count b) :
    ∀ a ∈ l, ∃ b₁ b₂, f b₁ a s = .ok b₂ s ∧ count b₂ = count b₁ := by
  induction l generalizing b with
  | nil => exact List.forall_mem_nil _
  | cons a l ih =>
    rw [List.foldlM_cons] at h
    obtain ⟨b₁, s₁, ha, hl⟩ := bind_eq_ok.1 h
    have hfirst := hf b a s b₁ s₁ ha
    have hcount : count b₁ = count b :=
      Nat.le_antisymm (hidle ▸ (shrinks_foldlM count hf hl).le) hfirst.le
    rw [hcount] at hfirst
    obtain rfl := hfirst.eq_of_idle
    exact List.forall_mem_cons.2 ⟨⟨b, b₁, ha, hcount⟩, ih hl (hidle.trans hcount.symm)⟩

theorem idle_of_runParallelTransitions (h : runParallelTransitions checker s = .ok 0 s') :
    ¬ s.accepting.Matches .fpt := by
  unfold runParallelTransitions at h
  rw [get_bind] at h
  obtain ⟨_, s₁, _, hpure⟩ := bind_eq_ok.1 h
  have hnone : s.accepting.parallelTransitions.length = 0 := (EStateM.Result.ok.inj hpure).1
  exact parallelTransitions_eq_nil_iff.1 (List.length_eq_zero_iff.1 hnone)

theorem idle_of_runParallelPlaces (h : runParallelPlaces checker s = .ok 0 s') :
    ¬ s.accepting.Matches .fpp := by
  unfold runParallelPlaces at h
  rw [get_bind] at h
  obtain ⟨_, s₁, _, hpure⟩ := bind_eq_ok.1 h
  have hnone : s.accepting.parallelPlaces.length = 0 := (EStateM.Result.ok.inj hpure).1
  exact parallelPlaces_eq_nil_iff.1 (List.length_eq_zero_iff.1 hnone)

theorem idle_of_runResetsAt {t : TransitionId} (h : runResetsAt checker t s = .ok 0 s') :
    s.accepting.needlessResets t = [] := by
  unfold runResetsAt at h
  rw [get_bind] at h
  obtain ⟨_, s₁, _, hpure⟩ := bind_eq_ok.1 h
  exact List.length_eq_zero_iff.1 (EStateM.Result.ok.inj hpure).1

theorem idle_of_runResets (h : runResets checker s = .ok 0 s') : ¬ s.accepting.Matches .r := by
  unfold runResets at h
  rw [get_bind] at h
  have hidle := idle_of_foldlM id (fun _ _ _ _ _ => shrinks_resetsTurn) h rfl
  rintro ⟨t, ht, hne⟩
  obtain ⟨total, total', hturn, hcount⟩ := hidle t (Net.mem_transitionIds.2 ht)
  obtain ⟨j, s₁, hat, hpure⟩ := bind_eq_ok.1 hturn
  cases hpure
  obtain rfl : j = 0 := Nat.add_eq_left.1 hcount
  exact hne (idle_of_runResetsAt hat)

/-- If `runRule` has applied nothing, the rule does not match. -/
theorem idle_of_runRule {rule : Rule} (h : runRule checker rule s = .ok 0 s') :
    ¬ s.accepting.Matches rule := by
  unfold runRule at h
  rw [get_bind] at h
  cases rule with
  | fst =>
    rintro ⟨p, hp⟩
    exact hp (idle_of_run h p (Net.mem_placeIds.2 (hasPlace_of_seriesTransitionsAt? hp)))
  | fsp =>
    rintro ⟨t, ht⟩
    exact ht (idle_of_run h t (Net.mem_transitionIds.2
      (Net.isSilent_iff.1 (isSilent_of_seriesPlacesAt? ht)).1))
  | fpt => exact idle_of_runParallelTransitions h
  | fpp => exact idle_of_runParallelPlaces h
  | elt =>
    rintro ⟨t, ht⟩
    exact ht (idle_of_run h t (Net.mem_transitionIds.2
      (Net.isSilent_iff.1 (isSilent_of_selfLoopTransitionAt? ht)).1))
  | elp =>
    rintro ⟨p, hp⟩
    have hnone := idle_of_run h p (Net.mem_placeIds.2 (hasPlace_of_isSelfLoopPlace hp))
    exact nomatch (if_pos hp).symm.trans hnone
  | a =>
    rintro ⟨t, ht⟩
    exact ht (idle_of_run h t (Net.mem_transitionIds.2
      (Net.isSilent_iff.1 (isSilent_of_silentStepAt? ht)).1))
  | r => exact idle_of_runResets h

/-- If a `pass` has applied nothing, it has seen a normal form, and has left it as it was. -/
theorem normal_of_pass {options : ReductionOptions} {applied : List (Rule × Nat)} {counts : Counts}
    (h : pass options applied s = .ok counts s') (hidle : counts.inPass = 0) :
    s.accepting.Normal options ∧ s' = s := by
  have hshrinks := shrinks_pass h
  rw [hidle] at hshrinks
  refine ⟨fun rule hruns => ?_, hshrinks.eq_of_idle⟩
  obtain ⟨counts₁, counts₂, hturn, hcount⟩ :=
    idle_of_foldlM Counts.inPass (fun _ _ _ _ _ => shrinks_turn) h hidle rule
      (by cases rule <;> decide)
  have hsize : options.runs s.size rule := hruns
  unfold turn at hturn
  rw [get_bind, if_pos hsize] at hturn
  obtain ⟨j, s₁, hrule, hpure⟩ := bind_eq_ok.1 hturn
  cases hpure
  obtain rfl : j = 0 := Nat.add_eq_left.1 hcount
  exact idle_of_runRule hrule

/-- The last one of the `passes` has found nothing in the net that is left. -/
theorem normal_of_passes {options : ReductionOptions} {made : Nat} {applied : List (Rule × Nat)}
    {r : Nat × List (Rule × Nat)} (h : passes options made applied s = .ok r s') :
    s'.accepting.Normal options := by
  obtain ⟨s₁, -, hend⟩ := rounds_of_passes options made applied s
  rw [h] at hend
  cases hend with
  | idle hpass hidle =>
    obtain ⟨hnormal, rfl⟩ := normal_of_pass hpass hidle
    exact hnormal

/-! ## Normal forms stay as they are -/

theorem drain_of_none {ι : Type} [DecidableEq ι] {rule : LocalRule ι} {queue : List ι}
    {applied : Nat} (h : ∀ i ∈ queue, rule.match? s.accepting i = none) :
    drain rule checker queue applied s = .ok applied s := by
  induction queue with
  | nil => exact drain_nil
  | cons i queue ih =>
    rw [drain_cons_of_none (h i List.mem_cons_self)]
    exact ih fun j hj => h j (List.mem_cons_of_mem _ hj)

theorem run_of_none {ι : Type} [DecidableEq ι] {rule : LocalRule ι} {anchors : List ι}
    (h : ∀ i, rule.match? s.accepting i = none) : run rule checker anchors s = .ok 0 s :=
  drain_of_none fun i _ => h i

theorem foldlM_of_still {ε σ α β : Type} {f : β → α → EStateM ε σ β} {l : List α} {b : β} {s : σ}
    (h : ∀ a ∈ l, f b a s = .ok b s) : l.foldlM f b s = .ok b s := by
  induction l with
  | nil => rfl
  | cons a l ih =>
    rw [List.foldlM_cons, bind_of_ok (h a List.mem_cons_self)]
    exact ih fun c hc => h c (List.mem_cons_of_mem _ hc)

theorem runRule_of_not_matches {rule : Rule} (h : ¬ s.accepting.Matches rule) :
    runRule checker rule s = .ok 0 s := by
  unfold runRule
  rw [get_bind]
  cases rule with
  | fst => exact run_of_none fun p => not_not.1 fun hp => h ⟨p, hp⟩
  | fsp => exact run_of_none fun t => not_not.1 fun ht => h ⟨t, ht⟩
  | fpt =>
    dsimp only
    rw [runParallelTransitions, get_bind, parallelTransitions_eq_nil_iff.2 h]
    rfl
  | fpp =>
    dsimp only
    rw [runParallelPlaces, get_bind, parallelPlaces_eq_nil_iff.2 h]
    rfl
  | elt => exact run_of_none fun t => not_not.1 fun ht => h ⟨t, ht⟩
  | elp => exact run_of_none fun p => if_neg fun hp => h ⟨p, hp⟩
  | a => exact run_of_none fun t => not_not.1 fun ht => h ⟨t, ht⟩
  | r =>
    refine foldlM_of_still fun t ht => ?_
    have hnone : s.accepting.needlessResets t = [] :=
      not_not.1 fun hne => h ⟨t, Net.mem_transitionIds.1 ht, hne⟩
    refine bind_of_ok (a := 0) ?_
    rw [runResetsAt, get_bind, hnone]
    rfl

theorem pass_of_normal {options : ReductionOptions} (h : s.accepting.Normal options) :
    pass options [] s = .ok ⟨[], 0⟩ s := by
  refine foldlM_of_still fun rule _ => ?_
  cases hruns : options.runs s.size rule with
  | true =>
    rw [turn_of_runs hruns (runRule_of_not_matches (h rule hruns))]
    cases rule <;> rfl
  | false => exact turn_of_not_runs hruns

theorem complete_of_normal {options : ReductionOptions} (h : s.accepting.Normal options)
    (hcheck : s.net.checkConsistency = .ok ()) :
    complete options s = .ok ⟨s.steps, 1, []⟩ s := by
  have hpasses : passes options 0 [] s = .ok (1, []) s :=
    (passes_of_ok (pass_of_normal h)).trans (if_pos rfl)
  unfold complete
  rw [bind_of_ok hpasses]
  dsimp only
  rw [get_bind, hcheck]
  rfl

end Reduction

namespace AcceptingNet

open Reduction

/-- If `reduce` succeeds, it leaves a normal form, and `reduce` leaves this as it is. -/
theorem reduce_normal {a b : AcceptingNet} {options : ReductionOptions} {report : ReductionReport}
    (h : a.reduce options = ⟨b, .ok report⟩) :
    b.Normal options ∧ b.reduce options = ⟨b, .ok { steps := [], passes := 1, applied := [] }⟩ := by
  obtain ⟨s, hrun, rfl⟩ := complete_of_reduce h
  obtain ⟨_, hcheck, hpasses⟩ := passes_of_complete hrun
  have hnormal := normal_of_passes hpasses
  have hagain := complete_of_normal (s := { accepting := s.accepting }) hnormal hcheck
  have hreduce := reduce_of_complete hagain
  exact ⟨hnormal, hreduce⟩

theorem reduce_handover : handover.reduce {} =
    ⟨direct, .ok ⟨[.seriesTransitionsFused "between" "pass" "work"], 2, [(.fst, 1)]⟩⟩ := by cbv

/-- The net without the silent transition is a normal form. -/
theorem direct_normal : direct.Normal {} ∧ direct.reduce {} = ⟨direct, .ok ⟨[], 1, []⟩⟩ :=
  reduce_normal reduce_handover

end AcceptingNet

end ProcessNet
