/-
Turns and passes. Whatever a reduction of a consistent net does, it takes one step after the other, each
of which is recorded. It stops early in two ways only: the checker turns down a net that a further step
has led to, or two places cannot be fused because no count can tell the tokens of both.
-/
import ProcessNet.Proofs.Reduction.Apply
import ProcessNet.Reduction.Schedule

namespace ProcessNet.Reduction

open AcceptingNet

/-- The rules of the steps taken. -/
def rules (s : Reduction) : List Rule := s.steps.map ReductionStep.rule

/-- The state with one more step on record, as `commit` leaves it. -/
def record (s : Reduction) (step : ReductionStep) : Reduction :=
  { s with steps := s.steps ++ [step] }

theorem mem_rules_record {s : Reduction} {step : ReductionStep} {rule : Rule} :
    rule ∈ (s.record step).rules ↔ rule ∈ s.rules ∨ rule = step.rule := by
  simp [rules, record]

/-! ## Commits -/

/-- The error of `commit` when the checker turns a net down after a step by a rule. -/
def rejection (rule : Rule) (e : ReductionError) : ReductionError :=
  .rejected ("after " ++ rule.code ++ ": " ++ e.message)

/-- How a reduction from `s₀` on stops early. -/
inductive Halted (checker : Option Checker) (s₀ : Reduction) : ReductionError → Reduction → Prop
  | overflow {s₁ s : Reduction} (h : Rewrites s₀ s₁) (hfull : s₁.accepting.Overfull)
    (hs : s.net.Consistent) (hspilled : s₁.accepting.Spilled s.accepting) :
    Halted checker s₀ (.net (.fault .countOverflow)) s
  | objection {check : Checker} {step : ReductionStep} {e : ReductionError} {s : Reduction}
    (hchecker : checker = some check) (he : check s.net = .error e)
    (h : Rewrites s₀ (s.record step)) : Halted checker s₀ (rejection step.rule e) s

variable {checker : Option Checker} {s₀ s : Reduction}

theorem ends_commit (s' : Reduction) {step : ReductionStep} (hs : s.net.Consistent)
    (h₀ : Rewrites s₀ s) (hstep : s.accepting.Rewritten step s'.accepting)
    (hsteps : s'.steps = s.steps) :
    Ends (fun _ s'' => s'' = s'.record step ∧ Rewrites s₀ s'') (Halted checker s₀)
      (commit checker s.size step s') := by
  have hrewrites : Rewrites s₀ (s'.record step) :=
    h₀.tail ⟨step, hstep, congrArg (· ++ [step]) hsteps⟩
  have hsmaller : s'.size.Smaller s.size := (hstep.lighter hs.mirrored).smaller
  unfold commit
  rw [if_pos hsmaller]
  cases hobj : objection? checker step.rule s'.net with
  | none => exact ⟨rfl, hrewrites⟩
  | some e =>
    unfold objection? at hobj
    cases checker with
    | none => cases hobj
    | some check =>
      dsimp only at hobj
      cases hcheck : check s'.net with
      | ok u => rw [hcheck] at hobj; cases hobj
      | error e' =>
        rw [hcheck] at hobj
        cases hobj
        exact .objection rfl hcheck hrewrites

theorem commit_of_objection {before : NetSize} {step : ReductionStep} {e : ReductionError}
    (hsmaller : s.size.Smaller before) (h : objection? checker step.rule s.net = some e) :
    commit checker before step s = .error e s := by
  unfold commit
  rw [if_pos hsmaller, h]

/-- `performOnce` commits a change that makes one step. -/
theorem ends_performOnce {describe : Net → ReductionStep} {change : ReductionM Unit}
    {a : AcceptingNet} (hs : s.net.Consistent) (h₀ : Rewrites s₀ s)
    (hchange : change s = .ok () { s with accepting := a })
    (hstep : s.accepting.Rewritten (describe s.net) a) :
    Ends (fun _ s' => s'.accepting = a ∧ Rewrites s₀ s') (Halted checker s₀)
      (performOnce checker describe change s) := by
  unfold performOnce
  rw [get_bind, bind_of_ok hchange]
  refine (ends_commit { s with accepting := a } hs h₀ hstep rfl).imp ?_ fun _ _ he => he
  rintro _ _ ⟨rfl, h⟩
  exact ⟨rfl, h⟩

/-! ## Rules at single anchors -/

/-- Wherever the rule matches in a consistent net, `apply` makes the step that it tells of, or two places
are overfull. -/
def LocalRule.Fits {ι : Type} (rule : LocalRule ι) : Prop :=
  ∀ s i m, s.net.Consistent → rule.match? s.accepting i = some m →
    Ends (fun _ s' => s.accepting.Rewritten (rule.describe s.net i m) s'.accepting ∧
        s'.steps = s.steps)
      (fun e s' => e = .net (.fault .countOverflow) ∧ s'.net.Consistent ∧ s.accepting.Overfull ∧
        s.accepting.Spilled s'.accepting)
      (rule.apply i m s)

theorem seriesTransitions_fits : seriesTransitions.Fits := by
  intro s p m hs hm
  obtain ⟨l, n, hok, h⟩ := exists_fuseSeriesTransitions hs hm
  change Ends _ _ (fuseSeriesTransitions p m s)
  rw [hok]
  exact ⟨.seriesTransitions hm h, rfl⟩

theorem seriesPlaces_fits : seriesPlaces.Fits := by
  intro s t m hs hm
  refine (ends_fuseSeriesPlaces hs hm).imp ?_ fun _ _ he => ⟨he.1, he.2.1, he.2.2.1, he.2.2.2.1⟩
  rintro _ _ ⟨n, initial, h, hmove, rfl⟩
  exact ⟨.seriesPlaces hm h hmove, rfl⟩

theorem selfLoopTransitions_fits : selfLoopTransitions.Fits := by
  intro s t p hs hm
  obtain ⟨l, n, hok, h⟩ := exists_removeSelfLoopTransition hs hm
  change Ends _ _ (removeSelfLoopTransition t p s)
  rw [hok]
  exact ⟨.selfLoopTransition hm h, rfl⟩

theorem selfLoopPlaces_fits : selfLoopPlaces.Fits := by
  intro s p m hs hm
  have hmatch : s.accepting.isSelfLoopPlace p := by
    simp only [selfLoopPlaces] at hm
    split at hm
    · assumption
    · cases hm
  obtain ⟨n, hok, h⟩ := exists_removeSelfLoopPlace hs hmatch
  change Ends _ _ (removeSelfLoopPlace p s)
  rw [hok]
  exact ⟨.selfLoopPlace hmatch h, rfl⟩

theorem silentSteps_fits : silentSteps.Fits := by
  intro s t m hs hm
  obtain ⟨l, n, hok, h⟩ := exists_skipSilentStep hs hm
  change Ends _ _ (skipSilentStep t m s)
  rw [hok]
  exact ⟨.silentStep hm h, rfl⟩

theorem LocalRule.Fits.perform {ι : Type} {rule : LocalRule ι} (h : rule.Fits)
    (hs : s.net.Consistent) (h₀ : Rewrites s₀ s) {i : ι} {m : rule.Match}
    (hm : rule.match? s.accepting i = some m) :
    Ends (fun _ s' => Rewrites s₀ s') (Halted checker s₀) (rule.perform checker i m s) := by
  unfold LocalRule.perform
  rw [get_bind]
  refine Ends.bind ((h s i m hs hm).imp ?_ ?_)
  · rintro l s' ⟨hstep, hsteps⟩
    exact Ends.bind ((ends_commit s' hs h₀ hstep hsteps).imp (fun _ _ h' => h'.2) fun _ _ he => he)
  · rintro e s' ⟨rfl, hs', hfull, hspilled⟩
    exact .overflow h₀ hfull hs' hspilled

/-- `drain` empties a worklist step by step. -/
theorem LocalRule.Fits.drain {ι : Type} [DecidableEq ι] {rule : LocalRule ι} (h : rule.Fits)
    (queue : List ι) (applied : Nat) (hs₀ : s₀.net.Consistent) (h₀ : Rewrites s₀ s) :
    Ends (fun _ s' => Rewrites s₀ s') (Halted checker s₀)
      (Reduction.drain rule checker queue applied s) := by
  induction queue, applied, s using drain_induction rule checker with
  | nil applied s =>
    rw [drain_nil]
    exact h₀
  | idle applied s i queue hm ih =>
    rw [drain_cons_of_none hm]
    exact ih h₀
  | error applied s i queue m hm e s' hp =>
    have hperform : Ends _ (Halted checker s₀) (rule.perform checker i m s) :=
      h.perform (h₀.consistent hs₀) h₀ hm
    rw [hp] at hperform
    rw [drain_cons_of_error hm hp]
    exact hperform
  | ok applied s i queue m hm neighbours s' hp ih =>
    have hperform : Ends _ (Halted checker s₀) (rule.perform checker i m s) :=
      h.perform (h₀.consistent hs₀) h₀ hm
    rw [hp] at hperform
    rw [drain_cons_of_ok hm hp]
    exact ih hperform

theorem LocalRule.Fits.run {ι : Type} [DecidableEq ι] {rule : LocalRule ι} (h : rule.Fits)
    (hs₀ : s₀.net.Consistent) (h₀ : Rewrites s₀ s) (anchors : List ι) :
    Ends (fun _ s' => Rewrites s₀ s') (Halted checker s₀) (run rule checker anchors s) :=
  h.drain _ _ hs₀ h₀

/-! ## Rules at groups and arcs -/

/-- Groups of twins that have no member in common. -/
structure TwinGroups {ι : Type} (Twins : AcceptingNet → ι → List ι → Prop) (a : AcceptingNet)
    (groups : List (Duplicates ι)) : Prop where
  twins : ∀ m ∈ groups, m.removed ≠ [] ∧ Twins a m.kept m.removed
  apart : groups.Pairwise fun m m' => ∀ i ∈ m.removed, i ∉ m'.kept :: m'.removed

/-- The first group is merged, and the others are left as they are. -/
theorem Merging.exists_head {ι : Type} {drop : ι → ReductionM Unit}
    {Twins : AcceptingNet → ι → List ι → Prop} {Drop : ι → ι → AcceptingNet → AcceptingNet → Prop}
    (h : Merging drop Twins Drop) {m : Duplicates ι} {groups : List (Duplicates ι)}
    (hs : s.net.Consistent) (hgroups : TwinGroups Twins s.accepting (m :: groups)) :
    ∃ a', m.removed.forM drop s = .ok () { s with accepting := a' } ∧ m.removed ≠ [] ∧
      Dropped (Drop m.kept) m.removed s.accepting a' ∧ TwinGroups Twins a' groups := by
  obtain ⟨hne, htwins⟩ := hgroups.twins m List.mem_cons_self
  obtain ⟨hm, hapart⟩ := List.pairwise_cons.1 hgroups.apart
  obtain ⟨a', hok, hdropped, hrest⟩ := h.exists_forM hs htwins
  refine ⟨a', hok, hne, hdropped, fun m' hm' => ?_, hapart⟩
  obtain ⟨hne', htwins'⟩ := hgroups.twins m' (List.mem_cons_of_mem _ hm')
  exact ⟨hne', hrest _ _ (hm m' hm') htwins'⟩

/-- `performOnce` merges groups of twins one after the other. -/
theorem Merging.ends_groups {ι : Type} {drop : ι → ReductionM Unit}
    {Twins : AcceptingNet → ι → List ι → Prop} {Drop : ι → ι → AcceptingNet → AcceptingNet → Prop}
    (h : Merging drop Twins Drop) {describe : Duplicates ι → Net → ReductionStep}
    (hdescribe : ∀ m a a', m.removed ≠ [] → Dropped (Drop m.kept) m.removed a a' →
      a.Rewritten (describe m a.net) a')
    {groups : List (Duplicates ι)} (hs₀ : s₀.net.Consistent) (h₀ : Rewrites s₀ s)
    (hgroups : TwinGroups Twins s.accepting groups) :
    Ends (fun _ s' => Rewrites s₀ s') (Halted checker s₀)
      ((groups.forM fun m => performOnce checker (describe m) (m.removed.forM drop)) s) := by
  refine (Ends.forM (C := fun groups s => Rewrites s₀ s ∧ TwinGroups Twins s.accepting groups) ?_
    ⟨h₀, hgroups⟩).imp (fun _ _ hc => hc.1) fun _ _ he => he
  rintro m groups s ⟨h₀, hgroups⟩
  have hs := h₀.consistent hs₀
  obtain ⟨a', hok, hne, hdropped, hrest⟩ := h.exists_head hs hgroups
  refine (ends_performOnce hs h₀ hok (hdescribe m _ _ hne hdropped)).imp ?_ fun _ _ he => he
  rintro _ s' ⟨rfl, h'⟩
  exact ⟨h', hrest⟩

/-- The groups that `parallelTransitions` finds are groups of twins. -/
theorem twins_of_parallelTransitions {a : AcceptingNet} (ha : a.net.incidence.Mirrored)
    {m : Duplicates TransitionId} (hm : m ∈ a.parallelTransitions) :
    m.removed ≠ [] ∧ TwinTransitions a m.kept m.removed := by
  have hids : (a.net.transitionIds.filter a.net.isSilent).Nodup :=
    (Net.nodup_transitionIds a.net).filter _
  refine ⟨(mem_duplicates hm).2, nodup_of_mem_duplicates hids hm, fun t ht => ?_, fun t ht => ?_⟩
  · exact (List.mem_filter.1 (key_of_mem_duplicates hm ht).1).2
  · exact sameArcs_of_transitionShape ha (key_of_mem_duplicates hm (List.mem_cons_of_mem _ ht)).2

theorem twinGroups_parallelTransitions {a : AcceptingNet} (ha : a.net.incidence.Mirrored) :
    TwinGroups TwinTransitions a a.parallelTransitions :=
  ⟨fun _ => twins_of_parallelTransitions ha,
    pairwise_duplicates ((Net.nodup_transitionIds a.net).filter _)⟩

/-- The groups that `parallelPlaces` finds are groups of twins. -/
theorem twins_of_parallelPlaces {a : AcceptingNet} (ha : a.net.incidence.Mirrored)
    {m : Duplicates PlaceId} (hm : m ∈ a.parallelPlaces) :
    m.removed ≠ [] ∧ a.net.hasPlace m.kept ∧ TwinPlaces a m.kept m.removed := by
  have hkey : ∀ p ∈ m.kept :: m.removed, p ∈ a.net.placeIds ∧ a.placeShape p = a.placeShape m.kept :=
    fun p hp => key_of_mem_duplicates hm hp
  have hremoved : ∀ p ∈ m.removed, p ∈ m.kept :: m.removed := fun p => List.mem_cons_of_mem _
  have hshape := fun p hp => sameArcs_of_placeShape ha (hkey p (hremoved p hp)).2
  exact ⟨(mem_duplicates hm).2, Net.mem_placeIds.1 (hkey _ List.mem_cons_self).1,
    nodup_of_mem_duplicates (Net.nodup_placeIds a.net) hm,
    fun p hp => Net.mem_placeIds.1 (hkey p (hremoved p hp)).1, fun p hp => (hshape p hp).1,
    fun p hp => (hshape p hp).2.1, fun p hp => (hshape p hp).2.2⟩

theorem twinGroups_parallelPlaces {a : AcceptingNet} (ha : a.net.incidence.Mirrored) :
    TwinGroups (fun a k l => a.net.hasPlace k ∧ TwinPlaces a k l) a a.parallelPlaces :=
  ⟨fun _ => twins_of_parallelPlaces ha, pairwise_duplicates (Net.nodup_placeIds a.net)⟩

/-- `dropPlace` merges live places with the same arcs and the same tokens one by one, and live ones are
left. -/
theorem merging_livePlaces : Merging dropPlace
    (fun a k l => a.net.hasPlace k ∧ TwinPlaces a k l)
    fun k d a a' => a.net.hasPlace k ∧ a.net.hasPlace d ∧ TwinPlaceGone k d a a' where
  notMem h := merging_places.notMem h.2
  tail h := ⟨h.1, merging_places.tail h.2⟩
  turn hs h := by
    obtain ⟨a', hok, hdrop, hcons, hrest⟩ := merging_places.turn hs h.2
    refine ⟨a', hok, ⟨h.1, h.2.live _ List.mem_cons_self, hdrop⟩, hcons, fun k' l' hd ht =>
      ⟨hdrop.gone.hasPlace_iff.2 ⟨ht.1, fun he => hd (he ▸ List.mem_cons_self)⟩, hrest k' l' hd ht.2⟩⟩

theorem ends_runParallelTransitions (hs₀ : s₀.net.Consistent) (h₀ : Rewrites s₀ s) :
    Ends (fun _ s' => Rewrites s₀ s') (Halted checker s₀) (runParallelTransitions checker s) := by
  unfold runParallelTransitions
  rw [get_bind]
  exact Ends.bind ((merging_transitions.ends_groups
    (fun _ _ _ hne h => .parallelTransitions hne h) hs₀ h₀
    (twinGroups_parallelTransitions (h₀.consistent hs₀).mirrored)).imp (fun _ _ hs' => hs')
    fun _ _ he => he)

theorem ends_runParallelPlaces (hs₀ : s₀.net.Consistent) (h₀ : Rewrites s₀ s) :
    Ends (fun _ s' => Rewrites s₀ s') (Halted checker s₀) (runParallelPlaces checker s) := by
  unfold runParallelPlaces
  rw [get_bind]
  exact Ends.bind ((merging_livePlaces.ends_groups
    (fun _ _ _ hne h => .parallelPlaces hne (h.imp fun _ _ _ hd => hd.2.2)) hs₀ h₀
    (twinGroups_parallelPlaces (h₀.consistent hs₀).mirrored)).imp (fun _ _ hs' => hs')
    fun _ _ he => he)

/-- Places whose reset arcs to the transition `R` finds needless, each of them once. -/
structure NeedlessAt (a : AcceptingNet) (t : TransitionId) (places : List PlaceId) : Prop where
  nodup : places.Nodup
  arcs : ∀ p ∈ places, Arc.reset p t ∈ a.net.arcs ∧ Arc.inhibitor p t ∈ a.net.arcs

theorem needlessAt_needlessResets {a : AcceptingNet} (ha : a.net.incidence.Mirrored)
    (t : TransitionId) : NeedlessAt a t (a.needlessResets t) :=
  ⟨nodup_needlessResets t, fun _ hp => (mem_needlessResets ha).1 hp⟩

/-- The first of the arcs is removed, and the others are left as they are. -/
theorem NeedlessAt.exists_head {t : TransitionId} {p : PlaceId} {places : List PlaceId}
    (hs : s.net.Consistent) (h : NeedlessAt s.accepting t (p :: places)) :
    ∃ n, removeReset p t s = .ok () (s.withNet n) ∧ Arc.reset p t ∈ s.net.arcs ∧
      Arc.inhibitor p t ∈ s.net.arcs ∧ s.net.ResetGone p t n ∧
      NeedlessAt ⟨n, s.accepting.initial, s.accepting.final⟩ t places := by
  obtain ⟨hp, hnodup⟩ := List.nodup_cons.1 h.nodup
  obtain ⟨hreset, hin⟩ := h.arcs p List.mem_cons_self
  obtain ⟨n, hok, hgone⟩ := exists_removeReset hs hreset
  refine ⟨n, hok, hreset, hin, hgone, hnodup, fun q hq => ?_⟩
  obtain ⟨hreset', hin'⟩ := h.arcs q (List.mem_cons_of_mem _ hq)
  refine ⟨(hgone.mem_arcs _).2 ⟨hreset', ?_⟩,
    (hgone.mem_arcs _).2 ⟨hin', fun he => nomatch congrArg Arc.kind he⟩⟩
  rintro ⟨⟩
  exact hp hq

theorem ends_runResetsAt (hs₀ : s₀.net.Consistent) (h₀ : Rewrites s₀ s) (t : TransitionId) :
    Ends (fun _ s' => Rewrites s₀ s') (Halted checker s₀) (runResetsAt checker t s) := by
  unfold runResetsAt
  rw [get_bind]
  refine Ends.bind ((Ends.forM (C := fun places s => Rewrites s₀ s ∧ NeedlessAt s.accepting t places)
    ?_ ⟨h₀, needlessAt_needlessResets (h₀.consistent hs₀).mirrored t⟩).imp (fun _ _ hc => hc.1)
    fun _ _ he => he)
  rintro p places s ⟨h₀, hneedless⟩
  have hs := h₀.consistent hs₀
  obtain ⟨n, hok, hreset, hin, hgone, hrest⟩ := hneedless.exists_head hs
  refine (ends_performOnce hs h₀ hok (.reset hreset hin hgone)).imp ?_ fun _ _ he => he
  rintro _ s' ⟨hs', h'⟩
  exact ⟨h', hs' ▸ hrest⟩

theorem ends_runResets (hs₀ : s₀.net.Consistent) (h₀ : Rewrites s₀ s) :
    Ends (fun _ s' => Rewrites s₀ s') (Halted checker s₀) (runResets checker s) := by
  unfold runResets
  rw [get_bind]
  refine Ends.foldlM (C := fun _ _ s => Rewrites s₀ s) (fun t l total s h₀ => ?_) h₀
  exact Ends.bind ((ends_runResetsAt hs₀ h₀ t).imp (fun _ _ h' => h') fun _ _ he => he)

/-! ## The whole reduction -/

theorem ends_runRule (hs₀ : s₀.net.Consistent) (h₀ : Rewrites s₀ s) (rule : Rule) :
    Ends (fun _ s' => Rewrites s₀ s') (Halted checker s₀) (runRule checker rule s) := by
  unfold runRule
  rw [get_bind]
  cases rule with
  | fst => exact seriesTransitions_fits.run hs₀ h₀ _
  | fsp => exact seriesPlaces_fits.run hs₀ h₀ _
  | fpt => exact ends_runParallelTransitions hs₀ h₀
  | fpp => exact ends_runParallelPlaces hs₀ h₀
  | elt => exact selfLoopTransitions_fits.run hs₀ h₀ _
  | elp => exact selfLoopPlaces_fits.run hs₀ h₀ _
  | a => exact silentSteps_fits.run hs₀ h₀ _
  | r => exact ends_runResets hs₀ h₀

theorem turn_of_runs {options : ReductionOptions} {counts : Counts} {rule : Rule} {s' : Reduction}
    {k : Nat} (h : options.runs s.size rule = true)
    (hrun : runRule options.checker rule s = .ok k s') :
    turn options counts rule s = .ok (counts.add rule k) s' := by
  rw [turn, get_bind, if_pos h, bind_of_ok hrun]
  rfl

theorem turn_of_not_runs {options : ReductionOptions} {counts : Counts} {rule : Rule}
    (h : options.runs s.size rule = false) : turn options counts rule s = .ok counts s := by
  rw [turn, get_bind, h]
  rfl

theorem ends_pass (options : ReductionOptions) (applied : List (Rule × Nat))
    (hs₀ : s₀.net.Consistent) (h₀ : Rewrites s₀ s) :
    Ends (fun _ s' => Rewrites s₀ s') (Halted options.checker s₀) (pass options applied s) := by
  unfold pass
  refine Ends.foldlM (C := fun _ _ s => Rewrites s₀ s) (fun rule l counts s h₀ => ?_) h₀
  unfold turn
  rw [get_bind]
  split
  · exact Ends.bind ((ends_runRule hs₀ h₀ rule).imp (fun _ _ h' => h') fun _ _ he => he)
  · exact h₀

/-- What follows a pass. -/
def goOn (options : ReductionOptions) (made : Nat) (counts : Counts) :
    ReductionM (Nat × List (Rule × Nat)) := fun s =>
  if counts.inPass = 0 then .ok (made + 1, counts.applied) s
  else passes options (made + 1) counts.applied s

theorem passes_eq (options : ReductionOptions) (made : Nat) (applied : List (Rule × Nat))
    (s : Reduction) : passes options made applied s = (pass options applied >>= goOn options made) s := by
  cases hp : pass options applied s with
  | error e s' => rw [passes_of_error hp, bind_of_error hp]
  | ok counts s' =>
    rw [passes_of_ok hp, bind_of_ok hp]
    rfl

/-- A claim that a pass keeps is kept by all `passes`. -/
theorem ends_passes (options : ReductionOptions) (made : Nat) (applied : List (Rule × Nat))
    (hs₀ : s₀.net.Consistent) (h₀ : Rewrites s₀ s) :
    Ends (fun _ s' => Rewrites s₀ s') (Halted options.checker s₀) (passes options made applied s) := by
  induction made, applied, s using passes_induction options with
  | error made applied s e s' hp =>
    have hpass := ends_pass options applied hs₀ h₀
    rw [hp] at hpass
    rw [passes_of_error hp]
    exact hpass
  | idle made applied s counts s' hp hidle =>
    have hpass := ends_pass options applied hs₀ h₀
    rw [hp] at hpass
    rw [passes_of_ok hp, if_pos hidle]
    exact hpass
  | again made applied s counts s' hp happlied ih =>
    have hpass := ends_pass options applied hs₀ h₀
    rw [hp] at hpass
    rw [passes_of_ok hp, if_neg happlied]
    exact ih hpass

/-- Of a consistent net `complete` comes to its end step by step and reports its steps, or it is halted. -/
theorem ends_complete (options : ReductionOptions) (hs₀ : s₀.net.Consistent) :
    Ends (fun report s => report.steps = s.steps ∧ Rewrites s₀ s) (Halted options.checker s₀)
      (complete options s₀) := by
  unfold complete
  refine Ends.bind ((ends_passes options 0 [] hs₀ (.refl s₀)).imp ?_ fun _ _ he => he)
  rintro ⟨made, applied⟩ s h₀
  dsimp only
  rw [get_bind]
  have hs : s.net.Consistent := h₀.consistent hs₀
  have hcheck := (Net.consistent_iff_checkConsistency hs.mirrored.nodup).1 hs
  rw [hcheck]
  exact ⟨rfl, h₀⟩

end ProcessNet.Reduction
