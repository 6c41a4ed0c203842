/-
Terminate ends. A token on a terminate end of the root process ends the run: what put it there took or
reset everything else, and only the silent steps to the sink are left. A token on a terminate end of a
subprocess does the same to the scope of the subprocess, and nothing comes back into it until it is
entered again. Both hold where the firing that put the token there took the last tokens of its own places
and led to terminate ends only; resets spare the places that a transition takes from.
-/
import ProcessNet.Proofs.Conversion.Evaluation

namespace ProcessNet

namespace Construction

open Identifier Net ProcessGraph

variable {g normal : ProcessGraph} {c : Construction} {p q : PlaceId} {t : TransitionId}
  {n m : NodeId} {s : JoinedSubprocess} {l : List JoinedSubprocess} {inside : String → Prop}
  {raised : List PlaceId} {x y : Tokens} {ts us : List TransitionId}

/-! ## Terminate ends and the sink -/

/-- The live place is that of a flow into a terminate end directly in the process. -/
def Terminal (normal : ProcessGraph) (process : String) (c : Construction) (p : PlaceId) : Prop :=
  c.net.hasPlace p ∧ ∃ f, c.flowPlaces.lookup f = some p ∧ Terminating normal f process

instance (normal : ProcessGraph) (f : FlowId) (process : String) :
    Decidable (Terminating normal f process) :=
  inferInstanceAs (Decidable (_ ∧ _))

instance (normal : ProcessGraph) (process : String) (c : Construction) :
    DecidablePred (Terminal normal process c) := fun p =>
  decidable_of_iff (c.net.hasPlace p ∧ ∃ e ∈ c.flowPlaces,
      c.flowPlaces.lookup e.1 = some p ∧ Terminating normal e.1 process) <| and_congr_right fun _ => by
    constructor
    · rintro ⟨e, _, hf, hterm⟩
      exact ⟨e.1, hf, hterm⟩
    · rintro ⟨f, hf, hterm⟩
      obtain ⟨l, r, hlr, _⟩ := List.lookup_eq_some_iff.1 hf
      exact ⟨(f, p), hlr ▸ List.mem_append_right _ List.mem_cons_self, hf, hterm⟩

/-- The place is that of the flows into normal ends of the root process. -/
def IsSink (normal : ProcessGraph) (c : Construction) (p : PlaceId) : Prop :=
  ∃ f, c.flowPlaces.lookup f = some p ∧ entersRootEnd normal (normal.flow f)

/-! ## The root process -/

namespace Finished

variable (hfin : Finished normal l c)
include hfin

theorem clears_root : c.net.Clears (fun q => c.net.hasPlace q) (Terminal normal normal.processId c) :=
  fun p t hp hout q hq hown => hfin.terminated p t hp.2 hout q hq fun hq' => hown ⟨hq, hq'⟩

/-- A token on a live place that is no terminate end of the root process moves on only while the run
goes on; when only terminate ends are marked, nothing but silent steps to the sink are left. -/
theorem swept_root (hx : Swept (fun q => c.net.hasPlace q) (Terminal normal normal.processId c) x)
    (hrun : c.net.Run x us y) :
    Swept (fun q => c.net.hasPlace q ∧ ¬ IsSink normal c q) (Terminal normal normal.processId c) y := by
  have hlive : ∀ {p t}, Arc.input p t ∈ c.net.arcs → c.net.hasPlace p :=
    fun ha => hfin.sound.valid.consistent.livePlace _ ha
  have hnever : ∀ t ∈ us, (fun _ => false) t = false := fun _ _ => rfl
  refine Swept.run (fun q t _ ha => .inr ?_) (fun p t hp ha q hq hout => ?_)
    (fun q hq => hx q hq.1) hrun hnever
  · obtain ⟨p, hin⟩ := hfin.exists_input (hfin.sound.valid.consistent.liveTransition _ ha)
    exact ⟨p, ⟨hlive hin, fun ⟨f, hf, hsink⟩ => hfin.sink f p t hf hsink hin⟩, hin⟩
  · obtain ⟨f, hf, hterm⟩ := hp.2
    exact hq.2 ((hfin.stopping f p t hf hterm ha).2 q hout)

/-- Where only terminate ends of the root process and its sink are marked, no labelled transition is
enabled. -/
theorem silent_of_swept {u : TransitionId}
    (hy : Swept (fun q => c.net.hasPlace q ∧ ¬ IsSink normal c q)
      (Terminal normal normal.processId c) y) (hu : c.net.Enabled u y) : c.net.label? u = none := by
  obtain ⟨p, hin⟩ := hfin.exists_input hu.live
  have hmarked := hu.marked p hin
  obtain ⟨tr, htr⟩ := hasTransition_iff.1 hu.live
  have hterm : Terminal normal normal.processId c p := Classical.byContradiction fun hnot => by
    have hzero := hy p ⟨hfin.sound.valid.consistent.livePlace _ hin,
      fun ⟨f, hf, hsink⟩ => hfin.sink f p u hf hsink hin⟩ hnot
    omega
  obtain ⟨_, f, hf, _, hkind⟩ := hterm
  rw [label?, htr]
  exact hfin.quiet f p u tr hf hkind hin htr

/-! ## Subprocesses -/

/-- What puts a token on a terminate end of a subprocess clears its scope. -/
theorem clears_terminal (hrefines : Refines g normal) (hn : (g.node n).kind.isSubprocess)
    (hclosed : Closed normal n (g.Inside n) l s raised c) :
    c.net.Clears (ScopeOf g normal n c) (Terminal normal (g.node n).id c) := by
  have hid : s.id = (g.node n).id :=
    hclosed.wired.joined.id.trans (hrefines.id_eq (lt_of_isSubprocess hn)).1
  intro p t hp hout q hq hown
  rw [← hid] at hp hown
  exact hclosed.settled.terminated.clears p t hp.2 hout q ((hfin.scopeOf_iff hrefines).1 hq)
    fun hq' => hown ⟨hq.1, hq'⟩

end Finished

end Construction

namespace ProcessDeclaration

open Identifier Net Construction ProcessGraph

variable {d : ProcessDeclaration} {g normal : ProcessGraph} {c : Construction}

/-- In the net of a graph that was built, what puts a token on a terminate end takes from or resets every
other place of the scope of its process. Let such a firing take the last tokens of the other places of the
scope that it takes from, and lead within the scope to terminate ends only. In the root process everything
else is empty then, and from then on everything but the sink, so that no labelled transition is enabled any
more. In a subprocess that is entered at most once everything else in its scope is empty as long as one of
its terminate ends is marked. -/
theorem terminate_ends_clear {showEvents : Bool} {a : AcceptingNet} (hbuild : d.build = .ok g)
    (h : g.toAcceptingNet showEvents = .ok a) :
    ∃ normal c, g.normalize = .ok normal ∧
      construct normal showEvents (start normal) = .ok () c ∧ a = c.toAccepting ∧
      (a.net.Clears (fun q => a.net.hasPlace q) (Terminal normal g.processId c) ∧
        ∀ ts x t us y, a.net.Run a.initial.tokens ts x → a.net.Enabled t x →
          a.net.Fills (Terminal normal g.processId c) t →
          a.net.Decides (fun q => a.net.hasPlace q) (Terminal normal g.processId c) x t →
          a.net.Run (a.net.after t x) us y →
          Swept (fun q => a.net.hasPlace q ∧ (us = [] ∨ ¬ IsSink normal c q))
            (Terminal normal g.processId c) y ∧
          ∀ u, a.net.Enabled u y → a.net.label? u = none) ∧
      ∀ n, (g.node n).kind.isSubprocess → g.Sealed n →
        a.net.Clears (ScopeOf g normal n c) (Terminal normal (g.node n).id c) ∧
        ∀ ts x p, a.net.Run a.initial.tokens ts x → ts.countP (a.net.bears (g.entryNames n)) ≤ 1 →
          a.net.LastDecides (ScopeOf g normal n c) (Terminal normal (g.node n).id c)
            a.initial.tokens ts →
          Terminal normal (g.node n).id c p → 0 < x p →
          Swept (ScopeOf g normal n c) (Terminal normal (g.node n).id c) x := by
  obtain ⟨_, normal, c, hnormal, hc, rfl⟩ := toAcceptingNet_eq_ok h
  obtain ⟨l, hfin⟩ := finished_of_build hbuild hnormal hc
  have hrefines := refines_normalize hnormal
  refine ⟨normal, c, hnormal, hc, rfl, ⟨hrefines.processId ▸ hfin.clears_root,
    fun ts x t us y _ _ hfills hdecides hrun => ?_⟩, fun n hn hsealed => ?_⟩
  · -- what the firing leaves is swept, and all that can fire then are silent ways to the sink
    rw [← hrefines.processId] at hfills hdecides ⊢
    have hswept := hfin.clears_root.after_swept hfills hdecides
    have hrest := hfin.swept_root hswept hrun
    refine ⟨fun q ⟨hq, hsink⟩ hown => ?_, fun u hu => hfin.silent_of_swept hrest hu⟩
    rcases hsink with rfl | hsink
    · cases hrun
      exact hswept q hq hown
    · exact hrest q ⟨hq, hsink⟩ hown
  · -- nothing but the entry leads into the scope of a sealed subprocess, so what is swept stays so
    have hr := region_of_build hbuild hnormal hn hsealed
    obtain ⟨s, raised, hclosed⟩ := hfin.closed n _ hr
    have hclears := hfin.clears_terminal hrefines hn hclosed
    refine ⟨hclears, fun ts x p hrun honce hlast hp hmarked =>
      hfin.swept_scope hrefines hn hr hclosed (fun p hp => ⟨hp.1, ?_⟩) hclears hrun honce hlast hp
        hmarked⟩
    obtain ⟨f, hf, hterm⟩ := hp.2
    exact ⟨f, hf, .inl hterm⟩

/-- Two tokens that may take different ways to terminate ends, and a subprocess with one of its own. -/
def haste : ProcessDeclaration where
  processId := "p"
  name := "p"
  nodes := [⟨"a", none, .startEvent .normal, "p"⟩, ⟨"b", none, .startEvent .normal, "p"⟩,
    ⟨"c", none, .startEvent .normal, "p"⟩, ⟨"done", none, .endEvent .normal, "p"⟩,
    ⟨"fork", none, .gateway .parallel .diverging, "p"⟩, ⟨"halt", none, .endEvent .terminate, "p"⟩,
    ⟨"over", none, .endEvent .normal, "p"⟩, ⟨"quit", none, .endEvent .terminate, "p"⟩,
    ⟨"sp", none, .subprocess 0, "p"⟩, ⟨"sp-done", none, .endEvent .normal, "sp"⟩,
    ⟨"sp-halt", none, .endEvent .terminate, "sp"⟩, ⟨"sp-start", none, .startEvent .normal, "sp"⟩,
    ⟨"sp-x", none, .gateway .exclusive .diverging, "sp"⟩, ⟨"t", some "T", .task, "p"⟩,
    ⟨"u", some "U", .task, "p"⟩, ⟨"x", none, .gateway .exclusive .unspecified, "p"⟩]
  flows := [⟨"f1", none, .sequence, "a", "x", none⟩, ⟨"f2", none, .sequence, "b", "x", none⟩,
    ⟨"f3", none, .sequence, "x", "t", none⟩, ⟨"f4", none, .sequence, "x", "fork", none⟩,
    ⟨"f5", none, .sequence, "t", "halt", none⟩, ⟨"f6", none, .sequence, "fork", "quit", none⟩,
    ⟨"f7", none, .sequence, "fork", "u", none⟩, ⟨"f8", none, .sequence, "u", "done", none⟩,
    ⟨"g1", none, .sequence, "c", "sp", none⟩, ⟨"g2", none, .sequence, "sp", "over", none⟩,
    ⟨"h1", none, .sequence, "sp-start", "sp-x", none⟩,
    ⟨"h2", none, .sequence, "sp-x", "sp-done", none⟩, ⟨"h3", none, .sequence, "sp-x", "sp-halt", none⟩]

/-- Firings in the net of this process that leave something behind. A second token is in front of the
task; the fork has another branch; of two tokens on a terminate end one has moved on to the sink. -/
def hasteRuns : List (List String) :=
  [["t@@@x#0@@@p", "t@@@x#2@@@p", "t@@@t@@@p"], ["t@@@x#1@@@p", "t@@@fork@@@p"],
    ["t@@@x#0@@@p", "t@@@x#2@@@p", "t@@@t@@@p", "t@@@t@@@p", "t-terminate-end@@@halt@@@p"]]

/-- What is evaluated on the net of this process. -/
theorem converts_haste : haste.converts fun g normal c =>
    (g.node ⟨8⟩).kind.isSubprocess && decide ((g.node ⟨8⟩).id = "sp") && g.isLocal &&
      decide (g.processId = "p") &&
      (c.net.settles (fun p => Terminal normal "p" c p) [] ["t@@@x#0@@@p"] c.initial &&
        c.net.settles (fun p => Terminal normal "sp" c p) (g.entryNames ⟨8⟩)
          ["t-start-subprocess@@@sp@@@p"] c.initial) &&
      ((hasteRuns.all fun names =>
          c.net.strands (fun p => Terminal normal "p" c p) (fun _ => true) names c.initial) &&
        (c.net.play ["t@@@x#1@@@p", "t@@@fork@@@p"] c.initial).any fun r =>
          c.net.marks (fun p => Terminal normal "p" c p) r.2 &&
            c.net.transitionIds.any fun u =>
              c.net.isEnabled u r.2 && decide (c.net.label? u = some "U")) := by
  delta converts build Construction.construct addFlowPlaces addNodes addNode addGateway
    joinSubprocesses joinSubprocess normalEndPlaces addTaskBoundaries addSubprocessBoundaries
    addSubprocessBoundary mergeRaisingEnds raisingEnds terminateSubprocess terminateRoot startsOf
    endsOf boundaryEventsOf terminationsOf ProcessGraph.normalize firstUnsupported?
  simp only [sortedPlaces_eq_insertionSort, sortedNodes_eq_insertionSort,
    sortedFlows_eq_insertionSort, select_eq_insertionSort,
    subprocessesInnermostFirst_eq_insertionSort]
  decide +kernel

/-- In the net of this process the task can terminate the process, and then nothing labelled is enabled
any more; the subprocess can terminate itself, and then nothing else in its scope is marked. -/
theorem haste_clears : ∃ g normal c a, haste.build = .ok g ∧ g.toAcceptingNet true = .ok a ∧
    (∃ ts x t, a.net.Plays a.initial.tokens ["t@@@x#0@@@p"] ts x ∧ a.net.Enabled t x ∧
      a.net.Fills (Terminal normal "p" c) t ∧
      ∀ us y u, a.net.Run (a.net.after t x) us y → a.net.Enabled u y → a.net.label? u = none) ∧
    ∃ ts x p, a.net.Run a.initial.tokens ts x ∧ Terminal normal "sp" c p ∧ 0 < x p ∧
      Swept (ScopeOf g normal ⟨8⟩ c) (Terminal normal "sp" c) x := by
  obtain ⟨g, normal, c, hbuild, hnormal, hc, ha, hcheck⟩ := exists_of_converts converts_haste
  simp only [Bool.and_eq_true, decide_eq_true_eq] at hcheck
  obtain ⟨⟨⟨⟨⟨hsub, hid⟩, hlocal⟩, hroot⟩, hhalt, hstop⟩, -⟩ := hcheck
  have hconsistent := (valid_of_construct hc).consistent
  obtain ⟨_, _, hnormal', hc', _, ⟨_, hroot'⟩, hall⟩ := terminate_ends_clear hbuild ha
  obtain rfl := Except.ok.inj (hnormal.symm.trans hnormal')
  cases hc.symm.trans hc'
  obtain ⟨_, hsp⟩ := hall ⟨8⟩ hsub (sealed_of_isLocal hlocal _)
  rw [hroot] at hroot'
  rw [hid] at hsp
  refine ⟨g, normal, c, _, hbuild, ha, ?_, ?_⟩
  · obtain ⟨ts, x, t, hplays, henabled, hfills, hdecides, _⟩ := exists_decides hconsistent hhalt
    simp only [decide_eq_true_eq] at hfills hdecides
    exact ⟨ts, x, t, hplays, henabled, hfills, fun us y u hrun hu =>
      (hroot' ts x t us y hplays.2 henabled hfills (hdecides _) hrun).2 u hu⟩
  · obtain ⟨ts, x, t, hplays, henabled, hfills, hdecides, honce⟩ := exists_decides hconsistent hstop
    simp only [decide_eq_true_eq] at hfills hdecides
    obtain ⟨p, hp, hmarked⟩ := hfills.exists_marked x
    have hrun := hplays.2.snoc henabled
    exact ⟨_, _, p, hrun, hp, hmarked, hsp _ _ p hrun honce
      (lastDecides_of_run hplays.2 hfills (hdecides _)) hp hmarked⟩

/-! ## What is left behind -/

/-- A start in front of a terminate end, and a flow that leaves a subprocess between two of its nodes. -/
def stray : ProcessDeclaration where
  processId := "p"
  name := "p"
  nodes := [⟨"a", none, .startEvent .normal, "p"⟩, ⟨"b", none, .startEvent .normal, "p"⟩,
    ⟨"done", none, .endEvent .normal, "p"⟩, ⟨"halt", none, .endEvent .terminate, "p"⟩,
    ⟨"sp", none, .subprocess 0, "p"⟩, ⟨"sp-done", none, .endEvent .normal, "sp"⟩,
    ⟨"sp-halt", none, .endEvent .terminate, "sp"⟩, ⟨"sp-one", none, .startEvent .normal, "sp"⟩,
    ⟨"sp-two", none, .startEvent .normal, "sp"⟩, ⟨"w", some "W", .task, "sp"⟩]
  flows := [⟨"f1", none, .sequence, "a", "sp", none⟩, ⟨"f2", none, .sequence, "sp", "done", none⟩,
    ⟨"f3", none, .sequence, "b", "halt", none⟩, ⟨"h1", none, .sequence, "sp-one", "sp-halt", none⟩,
    ⟨"h2", none, .sequence, "sp-two", "w", some "p"⟩, ⟨"h3", none, .sequence, "w", "sp-done", none⟩]

/-- What is evaluated on the net of this process. -/
theorem converts_stray : stray.converts fun g normal c =>
    (g.node ⟨4⟩).kind.isSubprocess && decide ((g.node ⟨4⟩).id = "sp") && decide (g.processId = "p") &&
      decide (g.entryNames ⟨4⟩ = ["t-start-subprocess@@@sp@@@p"]) &&
      c.net.strands (fun p => Terminal normal "p" c p) (fun _ => true) [] c.initial &&
      c.net.strands (fun p => Terminal normal "sp" c p) (flowsAt normal "sp" c)
          ["t-start-subprocess@@@sp@@@p", "t@@@w@@@sp"] c.initial := by
  delta converts build Construction.construct addFlowPlaces addNodes addNode addGateway
    joinSubprocesses joinSubprocess normalEndPlaces addTaskBoundaries addSubprocessBoundaries
    addSubprocessBoundary mergeRaisingEnds raisingEnds terminateSubprocess terminateRoot startsOf
    endsOf boundaryEventsOf terminationsOf ProcessGraph.normalize firstUnsupported?
  simp only [sortedPlaces_eq_insertionSort, sortedNodes_eq_insertionSort,
    sortedFlows_eq_insertionSort, select_eq_insertionSort,
    subprocessesInnermostFirst_eq_insertionSort]
  decide +kernel

/-- In the net of the first process a terminate end of the root process and another place are marked after
each of these runs; after one of them a task is enabled. In that of the second one they are marked at the
start; and after the subprocess was entered once one of its terminate ends is marked together with another
place of its scope. -/
theorem terminate_ends_strand :
    (∃ g normal c, haste.build = .ok g ∧ g.normalize = .ok normal ∧
      construct normal true (start normal) = .ok () c ∧ g.toAcceptingNet true = .ok c.toAccepting ∧
      (∀ names ∈ hasteRuns, ∃ ts x, c.net.Plays c.initial.tokens names ts x ∧
        Stranded (fun q => c.net.hasPlace q) (Terminal normal g.processId c) x) ∧
      ∃ ts x p u, c.net.Plays c.initial.tokens ["t@@@x#1@@@p", "t@@@fork@@@p"] ts x ∧
        Terminal normal g.processId c p ∧ 0 < x p ∧ c.net.Enabled u x ∧ c.net.label? u = some "U") ∧
    ∃ g normal c n, stray.build = .ok g ∧ g.normalize = .ok normal ∧
      construct normal true (start normal) = .ok () c ∧ g.toAcceptingNet true = .ok c.toAccepting ∧
      Stranded (fun q => c.net.hasPlace q) (Terminal normal g.processId c) c.initial.tokens ∧
      (g.node n).kind.isSubprocess ∧
      ∃ ts x, c.net.Plays c.initial.tokens ["t-start-subprocess@@@sp@@@p", "t@@@w@@@sp"] ts x ∧
        ts.countP (c.net.bears (g.entryNames n)) ≤ 1 ∧
        Stranded (ScopeOf g normal n c) (Terminal normal (g.node n).id c) x := by
  constructor
  · obtain ⟨g, normal, c, hbuild, hnormal, hc, ha, hcheck⟩ := exists_of_converts converts_haste
    simp only [Bool.and_eq_true, decide_eq_true_eq] at hcheck
    obtain ⟨⟨⟨-, hroot⟩, -⟩, hruns, hplay⟩ := hcheck
    have hconsistent := (valid_of_construct hc).consistent
    refine ⟨g, normal, c, hbuild, hnormal, hc, ha, fun names hnames => ?_, ?_⟩
    · have hstrands := exists_stranded hconsistent (List.all_eq_true.1 hruns names hnames)
        (fun q hq _ => hq)
      simpa only [decide_eq_true_eq, hroot] using hstrands
    · obtain ⟨ts, k, hplays, h⟩ := exists_of_play hconsistent hplay
      obtain ⟨hmarks, hany⟩ := Bool.and_eq_true_iff.1 h
      obtain ⟨p, _, hp, hmarked⟩ := exists_of_marks hmarks
      obtain ⟨u, _, hu⟩ := List.any_eq_true.1 hany
      obtain ⟨henabled, hlabel⟩ := Bool.and_eq_true_iff.1 hu
      exact ⟨ts, k.tokens, p, u, hplays, hroot ▸ of_decide_eq_true hp, hmarked,
        (isEnabled_iff hconsistent.mirrored).1 henabled, of_decide_eq_true hlabel⟩
  · obtain ⟨g, normal, c, hbuild, hnormal, hc, ha, hcheck⟩ := exists_of_converts converts_stray
    simp only [Bool.and_eq_true, decide_eq_true_eq] at hcheck
    obtain ⟨⟨⟨⟨⟨hsub, hid⟩, hroot⟩, hentry⟩, hstart⟩, hstray⟩ := hcheck
    have hconsistent := (valid_of_construct hc).consistent
    refine ⟨g, normal, c, ⟨4⟩, hbuild, hnormal, hc, ha, ?_, hsub, ?_⟩
    · obtain ⟨ts, x, ⟨hnames, hrun⟩, hstranded⟩ :=
        exists_stranded hconsistent hstart fun q (hq : c.net.hasPlace q) _ => hq
      cases hnames
      cases hrun
      simpa only [decide_eq_true_eq, hroot] using hstranded
    · obtain ⟨ts, x, hplays, hstranded⟩ := exists_stranded hconsistent hstray
        fun q hq => scopeOf_of_flowsAt hid hq
      refine ⟨ts, x, hplays, ?_, by simpa only [decide_eq_true_eq, hid] using hstranded⟩
      rw [hplays.countP_bears, hentry]
      decide

end ProcessDeclaration

end ProcessNet
