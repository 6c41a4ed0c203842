/-
The verdict on a process graph with and without reduction. A graph whose final marking is not reached is
refused in either case, with one exception: the reduction may remove a place that no run of the converted
net ever empties, and the net without it may reach its final marking.
-/
import ProcessNet.Delivery
import ProcessNet.Process.Declaration
import ProcessNet.Proofs.Conversion.Valid
import ProcessNet.Proofs.Reduction.Language
import ProcessNet.Proofs.StateSpace.Exact

namespace ProcessNet

namespace AcceptingNet

/-- Some run leads from the initial to the final marking. -/
def ReachesFinal (a : AcceptingNet) : Prop := a.net.Reachable a.initial.tokens a.final.tokens

/-- The search through all reachable markings ends. -/
def Explorable (a : AcceptingNet) : Prop := ∃ g, StateGraph.explore a.net a.initial none = .ok g

theorem reachesFinal_iff {a : AcceptingNet} : a.ReachesFinal ↔ ∃ w, a.Accepts w := by
  constructor
  · rintro ⟨ts, hts⟩
    exact ⟨_, ts, hts, rfl⟩
  · rintro ⟨_, ts, hts, _⟩
    exact ⟨ts, hts⟩

/-- `reduce` neither loses nor wins a run to the final marking, until `ELP` is applied. -/
theorem reachesFinal_of_faithful {a : AcceptingNet} {s : Reduction} (h : Reduction.Faithful a s) :
    a.ReachesFinal ↔ s.accepting.ReachesFinal ∧ .elp ∉ s.rules := by
  rw [reachesFinal_iff, reachesFinal_iff]
  by_cases help : .elp ∈ s.rules
  · constructor
    · rintro ⟨w, hw⟩
      exact absurd hw (h.dead help w)
    · rintro ⟨_, hnot⟩
      exact absurd help hnot
  · rw [and_iff_left help]
    exact exists_congr (h.language help)

variable {a : AcceptingNet}

theorem bounded_of_explorable (h : a.WellFormed) (hstore : a.initial.Storable)
    (he : a.Explorable) : a.Bounded := by
  obtain ⟨g, hg⟩ := he
  intro x hx p
  exact StateGraph.le_maxCount_of_explore h.consistent.mirrored h.initial hstore hg hx p

theorem storable_of_bounded (h : a.Bounded) : a.initial.Storable :=
  h _ (.refl _)

/-- `isEasySound` tells whether the final marking is reached, if its search ends. -/
theorem isEasySound_iff (h : a.WellFormed) (he : a.Explorable) :
    ∃ b : Bool, a.net.isEasySound a.initial a.final none = .ok b ∧ (b ↔ a.ReachesFinal) := by
  obtain ⟨g, hg⟩ := he
  refine ⟨g.contains a.final, ?_, ?_⟩
  · rw [Net.isEasySound, hg]
    rfl
  · exact StateGraph.contains_iff_reachable h.consistent.mirrored h.initial hg h.final

/-- `reduce` without a checker succeeds where no count overflows, and what it leaves is faithful. -/
theorem exists_faithful (h : a.WellFormed) (hbounded : a.Bounded) {o : ReductionOptions}
    (hchecker : o.checker = none) :
    ∃ report s, a.reduce o = ⟨s.accepting, .ok report⟩ ∧ report.steps = s.steps ∧
      Reduction.Faithful a s := by
  have hends := Reduction.ends_faithful o h
  cases hrun : Reduction.complete o { accepting := a } with
  | ok report s =>
    rw [hrun] at hends
    refine ⟨report, s, ?_, hends.1, hends.2⟩
    rw [reduce, hrun]
  | error e s =>
    rw [hrun] at hends
    rcases hends with ⟨_, hnot⟩ | ⟨check, _, _, hcheck, _⟩
    · exact absurd hbounded hnot
    · rw [hchecker] at hcheck
      cases hcheck

end AcceptingNet

namespace ProcessGraph

open AcceptingNet

/-- `deliver` hands no net on, because the final marking is not reached. -/
def Refused (g : ProcessGraph) (s : Settings) : Prop :=
  g.deliver s = .error (.notEasySound g.processId)

variable {g : ProcessGraph} {s : Settings}

/-- If `toAcceptingNet` fails, `deliver` neither refuses the graph nor hands a net on. -/
theorem deliver_of_conversionError {e : ConversionError}
    (h : g.toAcceptingNet s.includeEvents = .error e) : g.deliver s = .error (.conversion e) := by
  rw [deliver, h]
  rfl

/-- The verdict of `deliver` is that on the final marking. -/
theorem deliver_of_reduced {a : AcceptingNet} {d : Delivery} (hcheck : s.checkSoundness = true)
    (hlimit : s.stateLimit = none) (ha : g.toAcceptingNet s.includeEvents = .ok a)
    (hd : Delivery.reduced s a = .ok d) (h : d.accepting.WellFormed)
    (_ : d.accepting.initial.Storable) (he : d.accepting.Explorable) :
    (d.accepting.ReachesFinal ∧ g.deliver s = .ok d) ∨
      (¬ d.accepting.ReachesFinal ∧ g.Refused s) := by
  have hcons := (Net.consistent_iff_checkConsistency h.consistent.mirrored.nodup).1 h.consistent
  obtain ⟨b, hb, hreach⟩ := isEasySound_iff h he
  have hdeliver : g.deliver s = (Delivery.checkSoundness s g.processId d.accepting).map
      fun _ => d := by
    simp only [deliver, ha, hd, hcons, Except.mapError, bind, Except.bind]
    cases Delivery.checkSoundness s g.processId d.accepting <;> rfl
  rw [Refused, hdeliver, Delivery.checkSoundness, if_pos hcheck, hlimit, hb]
  cases b with
  | true => exact .inl ⟨hreach.1 rfl, rfl⟩
  | false => exact .inr ⟨(fun hr => nomatch hreach.2 hr), rfl⟩

/-- Where both searches end, `deliver` refuses a graph without reduction exactly if it refuses it with
reduction, or hands on what a reduction with `ELP` has left. -/
theorem refused_without_reduction_iff (g : ProcessGraph) (s : Settings)
    (hcheck : s.checkSoundness = true) (hlimit : s.stateLimit = none)
    (hfinite : ∀ a, g.toAcceptingNet s.includeEvents = .ok a →
      a.Explorable ∧ (a.reduce s.reduction.toOptions).accepting.Explorable) :
    g.Refused { s with reduce := false } ↔
      g.Refused { s with reduce := true } ∨
        ∃ d, g.deliver { s with reduce := true } = .ok d ∧
          .elp ∈ d.report.steps.map ReductionStep.rule := by
  cases ha : g.toAcceptingNet s.includeEvents with
  | error e =>
    have hverdict : ∀ b, g.deliver { s with reduce := b } = .error (.conversion e) := fun _ =>
      deliver_of_conversionError ha
    simp [Refused, hverdict]
  | ok a =>
    obtain ⟨hwf, hstore⟩ := wellFormed_of_toAcceptingNet ha
    obtain ⟨he, he'⟩ := hfinite a ha
    have hbounded := bounded_of_explorable hwf hstore he
    obtain ⟨report, r, hreduce, hreport, hfaithful⟩ :=
      exists_faithful (o := s.reduction.toOptions) hwf hbounded rfl
    rw [hreduce] at he'
    -- the verdicts differ just where the reduction has changed whether the final marking is reached
    have hreach := reachesFinal_of_faithful hfaithful
    have hoff := deliver_of_reduced (s := { s with reduce := false }) hcheck hlimit ha rfl hwf
      hstore he
    have hon := deliver_of_reduced (s := { s with reduce := true }) (d := ⟨r.accepting, report⟩)
      hcheck hlimit ha (by rw [Delivery.reduced, if_pos rfl, hreduce]; rfl) hfaithful.wellFormed
      (storable_of_bounded (hfaithful.bounded hbounded)) he'
    rcases hoff with ⟨hr, hok⟩ | ⟨hr, hrefused⟩
    · obtain ⟨hr', help⟩ := hreach.1 hr
      have hok' := (hon.resolve_right fun h => h.1 hr').2
      constructor
      · intro hrefused
        rw [Refused, hok] at hrefused
        cases hrefused
      · rintro (hrefused | ⟨d, hd, hmem⟩)
        · rw [Refused, hok'] at hrefused
          cases hrefused
        · rw [hok'] at hd
          cases hd
          rw [hreport] at hmem
          exact absurd hmem help
    · refine ⟨fun _ => ?_, fun _ => hrefused⟩
      rcases hon with ⟨hr', hok'⟩ | ⟨_, hrefused'⟩
      · refine .inr ⟨_, hok', ?_⟩
        rw [hreport]
        by_contra help
        exact hr (hreach.2 ⟨hr', help⟩)
      · exact .inl hrefused'

/-! ## A lost token -/

open Construction Reduction

/-- A process with two starts: `a` leads to the normal end `b`, and `c` to the error end `d`. -/
def alarm : ProcessDeclaration where
  processId := "p"
  name := "p"
  nodes := [⟨"a", none, .startEvent .normal, "p"⟩, ⟨"b", none, .endEvent .normal, "p"⟩,
    ⟨"c", none, .startEvent .normal, "p"⟩, ⟨"d", none, .endEvent .error, "p"⟩]
  flows := [⟨"f1", none, .sequence, "a", "b", none⟩, ⟨"f2", none, .sequence, "c", "d", none⟩]

def alarmGraph : ProcessGraph where
  processId := "p"
  name := "p"
  nodes := ⟨[⟨"a", none, .startEvent .normal, [], [⟨0⟩], "p"⟩,
    ⟨"b", none, .endEvent .normal, [⟨0⟩], [], "p"⟩,
    ⟨"c", none, .startEvent .normal, [], [⟨1⟩], "p"⟩,
    ⟨"d", none, .endEvent .error, [⟨1⟩], [], "p"⟩]⟩
  flows := ⟨[⟨"f1", none, .sequence, ⟨0⟩, ⟨1⟩, "p"⟩, ⟨"f2", none, .sequence, ⟨2⟩, ⟨3⟩, "p"⟩]⟩

/-- The net of this process: two marked places and no transitions. -/
def alarmNet : AcceptingNet where
  net := {
    name := "p"
    places := ⟨[some ⟨"source@@@f1@@@p", .source, "p"⟩, some ⟨"source@@@f2@@@p", .source, "p"⟩]⟩
    transitions := ⟨[]⟩
    incidence := { arcs := [], byPlace := ⟨[[], []]⟩, byTransition := ⟨[]⟩ }
    placeNames := ⟨[("source@@@f1@@@p", ⟨0⟩), ("source@@@f2@@@p", ⟨1⟩)]⟩
    transitionNames := ⟨[]⟩ }
  initial := ⟨[(⟨0⟩, 1), (⟨1⟩, 1)]⟩
  final := ⟨[(⟨0⟩, 1)]⟩

/-- What the reduction leaves of this net: the token in front of the error is gone. -/
def alarmRest : AcceptingNet where
  net := {
    name := "p"
    places := ⟨[some ⟨"source@@@f1@@@p", .source, "p"⟩, none]⟩
    transitions := ⟨[]⟩
    incidence := { arcs := [], byPlace := ⟨[[], []]⟩, byTransition := ⟨[]⟩ }
    placeNames := ⟨[("source@@@f1@@@p", ⟨0⟩)]⟩
    transitionNames := ⟨[]⟩ }
  initial := ⟨[(⟨0⟩, 1)]⟩
  final := ⟨[(⟨0⟩, 1)]⟩

/-- The construction of the net when all flows have their places. -/
def alarmFlows : Construction where
  net := alarmNet.net
  flowPlaces := [(⟨1⟩, ⟨1⟩), (⟨0⟩, ⟨0⟩)]

theorem toAcceptingNet_alarmGraph : alarmGraph.toAcceptingNet true = .ok alarmNet := by
  have hflows : addFlowPlaces alarmGraph (start alarmGraph) = .ok () alarmFlows := by
    rw [addFlowPlaces, show alarmGraph.sortedFlows = [⟨0⟩, ⟨1⟩] by cbv]
    rfl
  have hnodes : addNodes alarmGraph alarmFlows =
      .ok () { alarmFlows with initial := alarmNet.initial, final := alarmNet.final } := by
    rw [addNodes, show alarmGraph.sortedNodes = [⟨0⟩, ⟨1⟩, ⟨2⟩, ⟨3⟩] by cbv]
    rfl
  have hconstruct : Construction.construct alarmGraph true (start alarmGraph) =
      .ok () { alarmFlows with initial := alarmNet.initial, final := alarmNet.final } := by
    rw [Construction.construct, bind_of_ok hflows, bind_of_ok hnodes]
    cbv
  rw [toAcceptingNet, show alarmGraph.firstUnsupported? = none by cbv,
    show alarmGraph.normalize = .ok alarmGraph by cbv]
  simp only [construct, hconstruct, Except.mapError, bind, Except.bind]
  rw [show (Construction.toAccepting _).net.checkConsistency = .ok () from rfl]
  rfl

theorem reduce_alarmNet : alarmNet.reduce {} =
    ⟨alarmRest, .ok ⟨[.selfLoopPlaceRemoved "source@@@f2@@@p"], 2, [(.elp, 1)]⟩⟩ := by
  let before : Reduction := { accepting := alarmNet }
  let after : Reduction := ⟨alarmRest, [.selfLoopPlaceRemoved "source@@@f2@@@p"]⟩
  have hfst : runRule none .fst before = .ok 0 before := by cbv
  have hfsp : runRule none .fsp before = .ok 0 before := by cbv
  have helt : runRule none .elt before = .ok 0 before := by cbv
  have help : runRule none .elp before = .ok 1 after := by
    change drain selfLoopPlaces none [⟨0⟩, ⟨1⟩] 0 before = _
    rw [drain_cons_of_none rfl, drain_cons_of_ok (m := ()) rfl rfl]
    exact drain_nil
  have hr : runRule none .r after = .ok 0 after := by cbv
  have hfirst : pass {} [] before = .ok ⟨[(.elp, 1)], 1⟩ after := by
    unfold Reduction.pass Rule.order
    rw [List.foldlM_cons, bind_of_ok (turn_of_runs rfl hfst), List.foldlM_cons,
      bind_of_ok (turn_of_runs rfl hfsp), List.foldlM_cons, bind_of_ok (turn_of_not_runs rfl),
      List.foldlM_cons, bind_of_ok (turn_of_not_runs rfl), List.foldlM_cons,
      bind_of_ok (turn_of_runs rfl helt), List.foldlM_cons, bind_of_ok (turn_of_runs rfl help),
      List.foldlM_cons, bind_of_ok (turn_of_not_runs rfl), List.foldlM_cons,
      bind_of_ok (turn_of_runs rfl hr)]
    rfl
  have hsecond : pass {} [(.elp, 1)] after = .ok ⟨[(.elp, 1)], 0⟩ after := by cbv
  have hpasses : passes {} 0 [] before = .ok (2, [(.elp, 1)]) after := by
    rw [passes_of_ok hfirst, if_neg (by decide), passes_of_ok hsecond, if_pos rfl]
  have hcomplete : complete {} before =
      .ok ⟨[.selfLoopPlaceRemoved "source@@@f2@@@p"], 2, [(.elp, 1)]⟩ after := by
    rw [complete, bind_of_ok hpasses]
    rfl
  rw [AcceptingNet.reduce, show complete {} { accepting := alarmNet } = _ from hcomplete]

/-- The settings that ask for a verdict, with or without reduction. -/
def judging (reduce : Bool) : Settings := { checkSoundness := true, stateLimit := none, reduce }

/-- Both nets stay in their initial marking. -/
theorem explorable_alarm (a : AcceptingNet) (ha : alarmGraph.toAcceptingNet true = .ok a) :
    a.Explorable ∧ (a.reduce {}).accepting.Explorable := by
  rw [toAcceptingNet_alarmGraph] at ha
  cases ha
  rw [reduce_alarmNet]
  constructor
  · exact StateGraph.exists_explore (l := [alarmNet.initial]) (by simp)
      (fun _ _ _ ht => nomatch ht) (by decide)
  · exact StateGraph.exists_explore (l := [alarmRest.initial]) (by simp)
      (fun _ _ _ ht => nomatch ht) (by decide)

theorem alarm_refused_iff :
    alarmGraph.Refused (judging false) ↔ alarmGraph.Refused (judging true) ∨
      ∃ d, alarmGraph.deliver (judging true) = .ok d ∧
        .elp ∈ d.report.steps.map ReductionStep.rule :=
  refused_without_reduction_iff alarmGraph (judging true) rfl rfl explorable_alarm

/-- The reduction turns the verdict on this process, although both searches end. -/
theorem alarm_refused_only_without_reduction : alarm.build = .ok alarmGraph ∧
    (∀ a, alarmGraph.toAcceptingNet true = .ok a →
      a.Explorable ∧ (a.reduce {}).accepting.Explorable) ∧
    alarmGraph.Refused (judging false) ∧
    ¬ alarmGraph.Refused (judging true) := by
  obtain ⟨hwf, hstore⟩ := wellFormed_of_toAcceptingNet toAcceptingNet_alarmGraph
  obtain ⟨he, he'⟩ := explorable_alarm _ toAcceptingNet_alarmGraph
  have hbounded := bounded_of_explorable hwf hstore he
  refine ⟨by cbv, explorable_alarm, ?_, fun hon => ?_⟩
  · have hoff := deliver_of_reduced (s := judging false) rfl rfl toAcceptingNet_alarmGraph rfl hwf
      hstore he
    refine (hoff.resolve_left fun h => ?_).2
    have hclosed : alarmNet.net.Closed (· = alarmNet.initial) := by
      intro _ _ _ ht
      cases ht
    obtain ⟨k, rfl, hk⟩ := hclosed.exists_of_reachable hwf.consistent.mirrored rfl h.1
    cases congrFun hk ⟨1⟩
  · obtain ⟨report, r, hreduce, _, hfaithful⟩ := exists_faithful (o := {}) hwf hbounded rfl
    have hrest : r.accepting = alarmRest :=
      congrArg ReductionOutcome.accepting (hreduce.symm.trans reduce_alarmNet)
    have hwf' := hfaithful.wellFormed
    have hstore' := storable_of_bounded (hfaithful.bounded hbounded)
    rw [hrest] at hwf' hstore'
    rw [reduce_alarmNet] at he'
    have hreduced : Delivery.reduced (judging true) alarmNet =
        .ok ⟨alarmRest, [.selfLoopPlaceRemoved "source@@@f2@@@p"], 2, [(.elp, 1)]⟩ := by
      change (alarmNet.reduce {}).report.map (Delivery.mk (alarmNet.reduce {}).accepting) = _
      rw [reduce_alarmNet]
      rfl
    have hon' := deliver_of_reduced (s := judging true) rfl rfl toAcceptingNet_alarmGraph hreduced
      hwf' hstore' he'
    rcases hon' with ⟨_, hok⟩ | ⟨hnot, _⟩
    · rw [Refused, hok] at hon
      cases hon
    · exact hnot (.refl _)

end ProcessGraph

end ProcessNet
