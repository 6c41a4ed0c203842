/-
Ends that raise errors and cancellations. A token on such an end of a subprocess, from which the transition
of an event on the subprocess takes, means that what put it there took or reset everything else in the
scope, and nothing comes back into it until the subprocess is entered again: no exit is enabled and no
message arrives. This holds where the firing that put the token there took the last tokens of its own
places in the scope and led there to such ends only; resets spare the places that a transition takes from.
-/
import ProcessNet.Proofs.Conversion.Evaluation

namespace ProcessNet

namespace ProcessGraph

open Identifier Net Construction

variable {g normal : ProcessGraph} {n m : NodeId}

/-! ## Errors and cancellations -/

/-- The errors and cancellations on a subprocess. -/
def interruptionsOf (g : ProcessGraph) (n : NodeId) : List NodeId :=
  (g.boundaryEventsOf (g.node n).id).filter fun m =>
    match (g.node m).kind with
    | .boundaryEvent trigger _ => trigger.isInternal
    | _ => false

/-- The names of the transitions that `addSubprocessBoundary` adds for the errors and cancellations on a
subprocess. -/
def interruptionNames (g : ProcessGraph) (n : NodeId) : List String :=
  (g.interruptionsOf n).map fun m => boundaryName (g.node m).id (g.node n).process

theorem mem_interruptionsOf : m ∈ g.interruptionsOf n ↔ index m < g.nodes.size ∧
    ∃ trigger, (g.node m).kind = .boundaryEvent trigger (g.node n).id ∧ trigger.isInternal := by
  rw [interruptionsOf, List.mem_filter, mem_boundaryEventsOf]
  constructor
  · rintro ⟨⟨hm, trigger, hkind⟩, hinternal⟩
    rw [hkind] at hinternal
    exact ⟨hm, trigger, hkind, hinternal⟩
  · rintro ⟨hm, trigger, hkind, hinternal⟩
    refine ⟨⟨hm, trigger, hkind⟩, ?_⟩
    rw [hkind]
    exact hinternal

theorem Refines.mem_interruptionsOf_iff (h : Refines g normal) (hn : index n < g.nodes.size) :
    m ∈ normal.interruptionsOf n ↔ m ∈ g.interruptionsOf n := by
  rw [mem_interruptionsOf, mem_interruptionsOf, (h.id_eq hn).1]
  refine h.node_iff
    (P := fun x => ∃ trigger, x.kind = .boundaryEvent trigger (g.node n).id ∧ trigger.isInternal)
    (fun x => Iff.rfl) fun x d hd ⟨_, hkind, _⟩ => ?_
  rw [hd] at hkind
  cases hkind

end ProcessGraph

namespace Construction

open Identifier Net ProcessGraph

variable {g normal : ProcessGraph} {c : Construction} {p q : PlaceId} {t : TransitionId}
  {n m : NodeId} {s : JoinedSubprocess} {l : List JoinedSubprocess} {raised : List PlaceId}
  {x : Tokens}

/-- The transition of an error or a cancellation on the subprocess takes from the place. -/
def Raised (g : ProcessGraph) (n : NodeId) (net : Net) (p : PlaceId) : Prop :=
  ∃ t, net.bears (g.interruptionNames n) t ∧ Arc.input p t ∈ net.arcs

theorem feeds_iff {net : Net} : feeds (g.interruptionNames n) net p ↔ Raised g n net p :=
  feeds_iff_exists

/-! ## What is taken from the scope -/

section Region

variable (hrefines : Refines g normal) (hn : (g.node n).kind.isSubprocess)
  (hfin : Finished normal l c) (hclosed : Closed normal n (g.Inside n) l s raised c)
include hrefines hn hfin hclosed

theorem mem_raised_iff : p ∈ raised ↔ Raised g n c.net p := by
  have hlt := lt_of_isSubprocess hn
  have hconsistent := hfin.sound.valid.consistent
  have hh := hclosed.settled.handled
  have hid : s.id = (normal.node n).id := hclosed.wired.joined.id
  have hparent : s.parent = (g.node n).process :=
    hclosed.wired.joined.parent.trans (hrefines.id_eq hlt).2.1
  constructor
  · intro hp
    obtain ⟨m, t, hm, hinternal, ht⟩ := hh.raised p hp
    obtain ⟨trigger, activity, hkind, htrigger⟩ := hinternal
    obtain ⟨hm', _, hkind'⟩ := mem_boundaryEventsOf.1 hm
    have hmem : m ∈ g.interruptionsOf n := by
      refine (hrefines.mem_interruptionsOf_iff hlt).1 (mem_interruptionsOf.2 ⟨hm', trigger, ?_, htrigger⟩)
      rw [hkind] at hkind' ⊢
      cases hkind'
      rw [hid]
    have hname := ht.bears
    rw [(hrefines.id_eq (mem_interruptionsOf.1 hmem).1).1, hparent] at hname
    exact ⟨t, hname.bears (List.mem_map.2 ⟨m, hmem, rfl⟩), (ht.input p).2 rfl⟩
  · rintro ⟨t, ht, ha⟩
    obtain ⟨_, hname, hbears⟩ := bears_of_bears ht
    obtain ⟨m, hm, rfl⟩ := List.mem_map.1 hname
    obtain ⟨hm', trigger, hkind, htrigger⟩ :=
      mem_interruptionsOf.1 ((hrefines.mem_interruptionsOf_iff hlt).2 hm)
    obtain ⟨u, q, hu, hq⟩ := hh.internal m
      (mem_boundaryEventsOf.2 ⟨hm', trigger, by rw [hid]; exact hkind⟩) ⟨trigger, _, hkind, htrigger⟩
    have hname := hu.bears
    rw [(hrefines.id_eq (mem_interruptionsOf.1 hm).1).1, hparent] at hname
    obtain rfl := hbears.unique hconsistent hname
    exact (hu.input p).1 ha ▸ hq

/-- The ends are those of flows that raise an error or a cancellation in the subprocess. -/
theorem raising_of_raised (hp : Raised g n c.net p) :
    ∃ f, c.flowPlaces.lookup f = some p ∧ Raising normal f (g.node n).id := by
  obtain ⟨m, t, _, _, ht⟩ :=
    hclosed.settled.handled.raised p ((mem_raised_iff hrefines hn hfin hclosed).2 hp)
  rw [← (hrefines.id_eq (lt_of_isSubprocess hn)).1, ← hclosed.wired.joined.id]
  exact ht.raising

/-- By `clearOnEntry` what puts a token on such an end clears the scope. -/
theorem clears_raised : c.net.Clears (ScopeOf g normal n c) (Raised g n c.net) := by
  intro p t hp hout q hq hown
  rw [← mem_raised_iff hrefines hn hfin hclosed] at hp hown
  exact hclosed.settled.raised.clears p t hp hout q ((hfin.scopeOf_iff hrefines).1 hq) hown

/-- An exit takes from a normal end in the scope. -/
theorem exists_input_of_exit (hr : normal.Region n (g.Inside n))
    (ht : c.net.bears (g.exitNames n) t) :
    ∃ p, ScopeOf g normal n c p ∧ ¬ Raised g n c.net p ∧ Arc.input p t ∈ c.net.arcs := by
  obtain ⟨f, p, hf, ⟨hprocess, hkind⟩, ha⟩ :=
    hclosed.wired.exits t (hclosed.wired.joined.mem_exits hrefines hn hfin.sound.valid.consistent ht)
  refine ⟨p, ⟨hfin.sound.valid.consistent.livePlace _ ha, .inl ⟨f, hf, ?_⟩⟩, fun hp => ?_, ha⟩
  · rw [hr.confined.target f (hfin.sound.bound f p hf), hprocess]
    exact hr.self
  · obtain ⟨k, hk, hraising⟩ := raising_of_raised hrefines hn hfin hclosed hp
    exact hraising.ne_normal (hfin.sound.eq_of_kind hk hf hraising.ne_normal ▸ hkind)

/-- A message takes from its gate, which is in the scope. -/
theorem exists_input_of_message (hr : normal.Region n (g.Inside n))
    (ht : c.net.bears (g.messageNames n) t) :
    ∃ p, ScopeOf g normal n c p ∧ ¬ Raised g n c.net p ∧ Arc.input p t ∈ c.net.arcs := by
  obtain ⟨_, hname, hbears⟩ := bears_of_bears ht
  obtain ⟨m, hm, rfl⟩ := List.mem_map.1 hname
  obtain ⟨r, hrl, hw, u, p, hu, hbears'⟩ := hfin.exists_awaited hrefines hn hm
  obtain rfl := hbears.unique hfin.sound.valid.consistent hbears'
  refine ⟨p, ?_, fun hp => ?_, (hu.input p).2 rfl⟩
  · refine (hfin.scopeOf_iff hrefines).2 ⟨hu.gate.live, .inr ⟨hu.gate, r, hrl, ?_, hu.opened⟩⟩
    rw [hw.joined.id]
    exact hr.self
  · obtain ⟨k, hk, _⟩ := raising_of_raised hrefines hn hfin hclosed hp
    exact hfin.sound.plain k p hk hu.gate

end Region

end Construction

namespace ProcessDeclaration

open Net Construction ProcessGraph

/-- In the net that `toAcceptingNet` makes of a graph that was built, what puts a token on an end that
raises an error or a cancellation on a subprocess takes from or resets every other place of its scope.
Let such a firing take the last tokens of the other places of the scope that it takes from, and lead
within the scope to such ends only. If the subprocess is entered at most once, everything else in its
scope is empty as long as one of these ends is marked, and neither an exit nor a message is enabled. -/
theorem raised_ends_clear {d : ProcessDeclaration} {g : ProcessGraph} {showEvents : Bool}
    {a : AcceptingNet} (hbuild : d.build = .ok g) (h : g.toAcceptingNet showEvents = .ok a) :
    ∃ normal c, g.normalize = .ok normal ∧
      construct normal showEvents (start normal) = .ok () c ∧ a = c.toAccepting ∧
      ∀ n, (g.node n).kind.isSubprocess → g.Sealed n →
        a.net.Clears (ScopeOf g normal n c) (Raised g n a.net) ∧
        ∀ ts x p, a.net.Run a.initial.tokens ts x → ts.countP (a.net.bears (g.entryNames n)) ≤ 1 →
          a.net.LastDecides (ScopeOf g normal n c) (Raised g n a.net) a.initial.tokens ts →
          Raised g n a.net p → 0 < x p →
          Swept (ScopeOf g normal n c) (Raised g n a.net) x ∧
          ∀ t, a.net.bears (g.exitNames n ++ g.messageNames n) t → ¬ a.net.Enabled t x := by
  obtain ⟨_, normal, c, hnormal, hc, rfl⟩ := toAcceptingNet_eq_ok h
  obtain ⟨l, hfin⟩ := finished_of_build hbuild hnormal hc
  have hrefines := refines_normalize hnormal
  refine ⟨normal, c, hnormal, hc, rfl, fun n hn hsealed => ?_⟩
  have hr := region_of_build hbuild hnormal hn hsealed
  obtain ⟨s, raised, hclosed⟩ := hfin.closed n _ hr
  have hclears := clears_raised hrefines hn hfin hclosed
  refine ⟨hclears, fun ts x p hrun honce hlast hp hmarked => ?_⟩
  have hswept := hfin.swept_scope hrefines hn hr hclosed (fun p hp => ?_) hclears hrun honce hlast hp
    hmarked
  · refine ⟨hswept, fun t ht he => ?_⟩
    -- exits and messages take from a place of the scope that raises nothing, and it is empty
    have hinput : ∃ p, ScopeOf g normal n c p ∧ ¬ Raised g n c.net p ∧
        Arc.input p t ∈ c.net.arcs := by
      rcases bears_append.1 ht with hexit | hmessage
      · exact exists_input_of_exit hrefines hn hfin hclosed hr hexit
      · exact exists_input_of_message hrefines hn hfin hclosed hr hmessage
    obtain ⟨q, hq, hown, ha⟩ := hinput
    have := he.marked q ha
    have := hswept q hq hown
    omega
  · obtain ⟨f, hf, hraising⟩ := raising_of_raised hrefines hn hfin hclosed hp
    obtain ⟨_, _, ha⟩ := hp
    exact ⟨hfin.sound.valid.consistent.livePlace _ ha, f, hf, .inr hraising⟩

/-- A subprocess that raises the same error behind a task and behind a fork. -/
def torn : ProcessDeclaration where
  processId := "p"
  name := "p"
  nodes := [⟨"a", none, .startEvent .normal, "p"⟩,
    ⟨"caught", some "Oops", .boundaryEvent .error "sp", "p"⟩, ⟨"done", none, .endEvent .normal, "p"⟩,
    ⟨"handled", none, .endEvent .normal, "p"⟩,
    ⟨"late", some "Late", .boundaryEvent .message "sp", "p"⟩, ⟨"missed", none, .endEvent .normal, "p"⟩,
    ⟨"sp", none, .subprocess 0, "p"⟩, ⟨"sp-done", none, .endEvent .normal, "sp"⟩,
    ⟨"sp-fork", none, .gateway .parallel .diverging, "sp"⟩, ⟨"sp-one", none, .startEvent .normal, "sp"⟩,
    ⟨"sp-oops-fork", some "Oops", .endEvent .error, "sp"⟩,
    ⟨"sp-oops-task", some "Oops", .endEvent .error, "sp"⟩, ⟨"sp-t", some "T", .task, "sp"⟩,
    ⟨"sp-two", none, .startEvent .normal, "sp"⟩,
    ⟨"sp-x", none, .gateway .exclusive .unspecified, "sp"⟩]
  flows := [⟨"f1", none, .sequence, "a", "sp", none⟩, ⟨"f2", none, .sequence, "sp", "done", none⟩,
    ⟨"f3", none, .sequence, "caught", "handled", none⟩,
    ⟨"f4", none, .sequence, "late", "missed", none⟩, ⟨"h1", none, .sequence, "sp-one", "sp-x", none⟩,
    ⟨"h2", none, .sequence, "sp-two", "sp-x", none⟩, ⟨"h3", none, .sequence, "sp-x", "sp-t", none⟩,
    ⟨"h4", none, .sequence, "sp-x", "sp-fork", none⟩,
    ⟨"h5", none, .sequence, "sp-t", "sp-oops-task", none⟩,
    ⟨"h6", none, .sequence, "sp-fork", "sp-oops-fork", none⟩,
    ⟨"h7", none, .sequence, "sp-fork", "sp-done", none⟩]

/-- Firings in the net of this process that leave something behind: a second token in front of the task,
and the other branch of the fork. -/
def tornRuns : List (List String) :=
  [["t-start-subprocess@@@sp@@@p", "t@@@sp-x#0@@@sp", "t@@@sp-x#2@@@sp", "t@@@sp-t@@@sp"],
    ["t-start-subprocess@@@sp@@@p", "t@@@sp-x#1@@@sp", "t@@@sp-fork@@@sp"]]

/-- What is evaluated on the net of this process. -/
theorem converts_torn : torn.converts fun g normal c =>
    (g.node ⟨6⟩).kind.isSubprocess && decide ((g.node ⟨6⟩).id = "sp") && g.isLocal &&
      decide (g.entryNames ⟨6⟩ = ["t-start-subprocess@@@sp@@@p"]) &&
      c.net.settles (feeds (g.interruptionNames ⟨6⟩) c.net) (g.entryNames ⟨6⟩)
        ["t-start-subprocess@@@sp@@@p", "t@@@sp-x#0@@@sp"] c.initial &&
      tornRuns.all fun names =>
        c.net.strands (feeds (g.interruptionNames ⟨6⟩) c.net) (flowsAt normal "sp" c) names
          c.initial := by
  delta converts build Construction.construct addFlowPlaces addNodes addNode addGateway
    joinSubprocesses joinSubprocess normalEndPlaces addTaskBoundaries addSubprocessBoundaries
    addSubprocessBoundary mergeRaisingEnds raisingEnds terminateSubprocess terminateRoot
    interruptionNames interruptionsOf startsOf endsOf boundaryEventsOf terminationsOf
    ProcessGraph.normalize firstUnsupported?
  simp only [sortedPlaces_eq_insertionSort, sortedNodes_eq_insertionSort,
    sortedFlows_eq_insertionSort, select_eq_insertionSort,
    subprocessesInnermostFirst_eq_insertionSort]
  decide +kernel

/-- In the net of this process the task in the subprocess can raise the error, and then nothing else in the
scope is marked and neither an exit nor the message is enabled. -/
theorem torn_clears : ∃ g normal c a, torn.build = .ok g ∧ g.toAcceptingNet true = .ok a ∧
    ∃ ts x p, a.net.Run a.initial.tokens ts x ∧ Raised g ⟨6⟩ a.net p ∧ 0 < x p ∧
      Swept (ScopeOf g normal ⟨6⟩ c) (Raised g ⟨6⟩ a.net) x ∧
      ∀ t, a.net.bears (g.exitNames ⟨6⟩ ++ g.messageNames ⟨6⟩) t → ¬ a.net.Enabled t x := by
  obtain ⟨g, normal, c, hbuild, hnormal, hc, ha, hcheck⟩ := exists_of_converts converts_torn
  simp only [Bool.and_eq_true, decide_eq_true_eq] at hcheck
  obtain ⟨⟨⟨⟨⟨hsub, _⟩, hlocal⟩, _⟩, hraise⟩, -⟩ := hcheck
  have hconsistent := (valid_of_construct hc).consistent
  obtain ⟨_, _, hnormal', hc', _, hall⟩ := raised_ends_clear hbuild ha
  obtain rfl := Except.ok.inj (hnormal.symm.trans hnormal')
  cases hc.symm.trans hc'
  obtain ⟨_, hsp⟩ := hall ⟨6⟩ hsub (sealed_of_isLocal hlocal _)
  obtain ⟨ts, x, t, hplays, henabled, hfills, hdecides, honce⟩ := exists_decides hconsistent hraise
  simp only [feeds_iff] at hfills hdecides
  obtain ⟨p, hp, hmarked⟩ := hfills.exists_marked x
  have hrun := hplays.2.snoc henabled
  exact ⟨g, normal, c, _, hbuild, ha, _, _, p, hrun, hp, hmarked, hsp _ _ p hrun honce
    (lastDecides_of_run hplays.2 hfills (hdecides _)) hp hmarked⟩

/-! ## What is left behind -/

/-- A subprocess whose entry raises an error, with a flow that leaves it between two of its nodes. -/
def rift : ProcessDeclaration where
  processId := "p"
  name := "p"
  nodes := [⟨"a", none, .startEvent .normal, "p"⟩,
    ⟨"caught", some "Oops", .boundaryEvent .error "sp", "p"⟩, ⟨"done", none, .endEvent .normal, "p"⟩,
    ⟨"handled", none, .endEvent .normal, "p"⟩, ⟨"sp", none, .subprocess 0, "p"⟩,
    ⟨"sp-done", none, .endEvent .normal, "sp"⟩, ⟨"sp-one", none, .startEvent .normal, "sp"⟩,
    ⟨"sp-oops", some "Oops", .endEvent .error, "sp"⟩, ⟨"sp-two", none, .startEvent .normal, "sp"⟩,
    ⟨"w", some "W", .task, "sp"⟩]
  flows := [⟨"f1", none, .sequence, "a", "sp", none⟩, ⟨"f2", none, .sequence, "sp", "done", none⟩,
    ⟨"f3", none, .sequence, "caught", "handled", none⟩,
    ⟨"h1", none, .sequence, "sp-one", "sp-oops", none⟩,
    ⟨"h2", none, .sequence, "sp-two", "w", some "p"⟩, ⟨"h3", none, .sequence, "w", "sp-done", none⟩]

/-- What is evaluated on the net of this process. -/
theorem converts_rift : rift.converts fun g _ c =>
    (g.node ⟨4⟩).kind.isSubprocess && decide ((g.node ⟨4⟩).id = "sp") &&
      decide (g.entryNames ⟨4⟩ = ["t-start-subprocess@@@sp@@@p"]) &&
      (c.net.play ["t-start-subprocess@@@sp@@@p", "t@@@w@@@sp"] c.initial).any fun r =>
        c.net.marks (feeds (g.interruptionNames ⟨4⟩) c.net) r.2 &&
          c.net.transitionIds.any fun u =>
            c.net.isEnabled u r.2 && c.net.bears (g.exitNames ⟨4⟩) u := by
  delta converts build Construction.construct addFlowPlaces addNodes addNode addGateway
    joinSubprocesses joinSubprocess normalEndPlaces addTaskBoundaries addSubprocessBoundaries
    addSubprocessBoundary mergeRaisingEnds raisingEnds terminateSubprocess terminateRoot exitNames
    normalEndsOf interruptionNames interruptionsOf startsOf endsOf boundaryEventsOf terminationsOf
    ProcessGraph.normalize firstUnsupported?
  simp only [sortedPlaces_eq_insertionSort, sortedNodes_eq_insertionSort,
    sortedFlows_eq_insertionSort, select_eq_insertionSort,
    subprocessesInnermostFirst_eq_insertionSort]
  decide +kernel

/-- In the net of the first process, after the subprocess was entered once, an end that raises the error is
marked together with another place of the scope; in that of the second one an exit is enabled then. -/
theorem raised_ends_strand :
    (∃ g normal c n, torn.build = .ok g ∧ g.normalize = .ok normal ∧
      construct normal true (start normal) = .ok () c ∧ g.toAcceptingNet true = .ok c.toAccepting ∧
      (g.node n).kind.isSubprocess ∧
      ∀ names ∈ tornRuns, ∃ ts x, c.net.Plays c.initial.tokens names ts x ∧
        ts.countP (c.net.bears (g.entryNames n)) ≤ 1 ∧
        Stranded (ScopeOf g normal n c) (Raised g n c.net) x) ∧
    ∃ g normal c n, rift.build = .ok g ∧ g.normalize = .ok normal ∧
      construct normal true (start normal) = .ok () c ∧ g.toAcceptingNet true = .ok c.toAccepting ∧
      (g.node n).kind.isSubprocess ∧
      ∃ ts x p u, c.net.Plays c.initial.tokens ["t-start-subprocess@@@sp@@@p", "t@@@w@@@sp"] ts x ∧
        ts.countP (c.net.bears (g.entryNames n)) ≤ 1 ∧ Raised g n c.net p ∧ 0 < x p ∧
        c.net.bears (g.exitNames n) u ∧ c.net.Enabled u x := by
  constructor
  · obtain ⟨g, normal, c, hbuild, hnormal, hc, ha, hcheck⟩ := exists_of_converts converts_torn
    simp only [Bool.and_eq_true, decide_eq_true_eq] at hcheck
    obtain ⟨⟨⟨⟨⟨hsub, hid⟩, -⟩, hentry⟩, -⟩, hruns⟩ := hcheck
    have hconsistent := (valid_of_construct hc).consistent
    refine ⟨g, normal, c, ⟨6⟩, hbuild, hnormal, hc, ha, hsub, fun names hnames => ?_⟩
    obtain ⟨ts, x, hplays, hstranded⟩ := exists_stranded hconsistent
      (List.all_eq_true.1 hruns names hnames) fun q hq => scopeOf_of_flowsAt hid hq
    refine ⟨ts, x, hplays, ?_, by simpa only [feeds_iff] using hstranded⟩
    have honce : ∀ names ∈ tornRuns, names.countP (["t-start-subprocess@@@sp@@@p"].contains ·) ≤ 1 := by
      decide
    rw [hplays.countP_bears, hentry]
    exact honce names hnames
  · obtain ⟨g, normal, c, hbuild, hnormal, hc, ha, hcheck⟩ := exists_of_converts converts_rift
    simp only [Bool.and_eq_true, decide_eq_true_eq] at hcheck
    obtain ⟨⟨⟨hsub, -⟩, hentry⟩, hplay⟩ := hcheck
    have hconsistent := (valid_of_construct hc).consistent
    obtain ⟨ts, k, hplays, h⟩ := exists_of_play hconsistent hplay
    obtain ⟨hmarks, hany⟩ := Bool.and_eq_true_iff.1 h
    obtain ⟨p, _, hp, hmarked⟩ := exists_of_marks hmarks
    obtain ⟨u, _, hu⟩ := List.any_eq_true.1 hany
    obtain ⟨henabled, hexit⟩ := Bool.and_eq_true_iff.1 hu
    refine ⟨g, normal, c, ⟨4⟩, hbuild, hnormal, hc, ha, hsub, ts, k.tokens, p, u, hplays, ?_,
      feeds_iff.1 hp, hmarked, hexit, (isEnabled_iff hconsistent.mirrored).1 henabled⟩
    rw [hplays.countP_bears, hentry]
    decide

end ProcessDeclaration

end ProcessNet
