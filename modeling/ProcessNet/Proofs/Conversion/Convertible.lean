/-
Which processes can be converted. In a process whose flows and events stay in their processes, and where
nothing is taken that is generated, the conversion succeeds just if no gateway is inclusive and no node lacks
what it needs. Otherwise it says which node is not supported, or what is missing.
-/
import ProcessNet.Proofs.Conversion.Completion
import ProcessNet.Proofs.Conversion.Legible
import ProcessNet.Proofs.Process.Vacancy

namespace ProcessNet

namespace Construction

open Identifier ProcessGraph

variable {g : ProcessGraph} {showEvents : Bool}

/-- The parts of a construction together require that nothing is lacking. -/
theorem furnished_iff (hg : g.Sound) : g.Furnished ↔
    (∀ n, index n < g.nodes.size → (g.node n).kind.isPlain → g.Served n) ∧
      (∀ n, (g.node n).kind.isSubprocess → g.Served n ∧ g.Passable n) ∧
      (∀ task ∈ g.select (·.kind = .task), ∀ m ∈ g.boundaryEventsOf (g.node task).id,
        (g.node m).outgoing ≠ []) ∧
      ∀ n, (g.node n).kind.isSubprocess → ∀ m ∈ g.boundaryEventsOf (g.node n).id,
        (g.node m).outgoing ≠ [] ∧ g.RaisedIn (g.node n).id m := by
  have hleft : ∀ id, ∀ m ∈ g.boundaryEventsOf id, (g.node m).kind.needsOutgoing := by
    intro id m hm
    obtain ⟨-, _, hkind⟩ := mem_boundaryEventsOf.1 hm
    rw [hkind]
    rfl
  constructor
  · rintro ⟨hserved, hpassable, hraised⟩
    have hout : ∀ id, ∀ m ∈ g.boundaryEventsOf id, (g.node m).outgoing ≠ [] := fun id m hm =>
      (hserved m (mem_boundaryEventsOf.1 hm).1).outgoing (hleft id m hm)
    exact ⟨fun n hn _ => hserved n hn, fun n hn => ⟨hserved n (lt_of_isSubprocess hn), hpassable n hn⟩,
      fun _ _ => hout _, fun n hn m hm => ⟨hout _ m hm, hraised n hn m hm⟩⟩
  · rintro ⟨hplain, hjoined, htasks, hevents⟩
    refine ⟨fun n hn => ?_, fun n hn => (hjoined n hn).2, fun n hn m hm => (hevents n hn m hm).2⟩
    cases hkind : (g.node n).kind with
    | subprocess => exact (hjoined n (by rw [hkind]; rfl)).1
    | boundaryEvent trigger activity =>
      -- the activity is a task or a subprocess
      obtain ⟨a, ha, rfl, hactivity⟩ := hg.exists_activity hkind
      have hm : n ∈ g.boundaryEventsOf (g.node a).id := mem_boundaryEventsOf.2 ⟨hn, trigger, hkind⟩
      refine ⟨fun h => ?_, fun _ => ?_⟩
      · rw [hkind] at h
        cases h
      · cases hactivitykind : (g.node a).kind with
        | task => exact htasks a (mem_select.2 ⟨ha, decide_eq_true hactivitykind⟩) n hm
        | subprocess => exact (hevents a (by rw [hactivitykind]; rfl) n hm).1
        | _ => rw [hactivitykind] at hactivity; cases hactivity
    | _ => exact hplain n hn (by rw [hkind]; rfl)

/-- `construct` requires that nothing is lacking, and that the root process can be concluded. -/
theorem checks_construct (hg : g.Normal) (hsound : g.Sound) (hlocal : g.Local) (hsupported : Supported g) :
    Checks (fun _ _ => True) (g.Furnished ∧ g.Concluded) (construct g showEvents) (start g) := by
  rw [furnished_iff hsound, and_assoc, and_assoc, and_assoc]
  refine Checks.after checks_addFlowPlaces fun _ c₁ hflows hc₁ => ?_
  have hstocked := stocked_of_addFlowPlaces hflows hc₁
  refine Checks.bind (checks_addNodes hg.linked hsupported hstocked (ground_of_addFlowPlaces hflows).unmarked)
    fun _ c₂ hnodes hplain hc₂ => ?_
  refine Checks.bind (grows_joinSubprocesses hg.linked hc₂ hplain) fun l c₃ hjoin _ hc₃ => ?_
  have hc₃' := hc₂.kept hc₃.toKept
  refine Checks.bind (grows_addTaskBoundaries hg.linked hc₃' hplain) fun _ c₄ htasks _ hc₄ => ?_
  have hprep := prepared_of_parts hg hflows hnodes hjoin htasks
  obtain ⟨place, hl₁⟩ := ledger_of_addFlowPlaces hflows
  obtain ⟨hl₄, hflows₄, hsink₄⟩ := books_of_parts hg hsupported hnodes hjoin htasks _ _ _ _ hl₁
  have hpending : Pending g l [] g.subprocessesInnermostFirst l c₄ :=
    ⟨hprep.sound, hc₄.sturdy, (hc₃'.kept hc₄.toKept).provided, hprep.queue, ⟨_, _, place, hl₄⟩,
      fun _ _ => List.not_mem_nil⟩
  refine Checks.bind ((checks_finishes hg hlocal hsound.rooted.layered hplain hpending).iff ⟨fun h n hn => ?_, fun h s hs => ?_⟩)
    fun _ c₅ hfinish _ ⟨done, nodes, hc₅⟩ => ?_
  · obtain ⟨s, hs, hw⟩ := exists_record hprep.wired hn
    exact hw.joined.id ▸ h s hs
  · obtain ⟨n, -, hw⟩ := exists_of_forall₂ hprep.wired.flip hs
    exact hw.joined.id ▸ h n hw.kind
  · obtain ⟨st, -⟩ := stitches_finishes hg hprep.sound hprep.queue hfinish
    refine checks_terminateRoot hg hplain hc₅ fun f p hf henters => ?_
    rw [st.flowPlaces, hflows₄] at hf
    rw [st.rootSink, hsink₄]
    exact rootSink_of_addFlowPlaces hflows hf henters

end Construction

namespace ProcessGraph

open Identifier Construction

variable {g normal : ProcessGraph} {showEvents : Bool}

/-- Nothing that is generated is taken: neither the ids that `normalize` needs, nor the name of a place
or a transition. -/
structure Unclaimed (g : ProcessGraph) (showEvents : Bool) : Prop where
  ids : ∀ n, index n < g.nodes.size → (g.node n).kind.isGateway = false → g.Ready n
  names : ∀ e, g.toAcceptingNet showEvents = .error e → ¬ e.IsDuplicate

/-- Nothing is taken where the ids that `normalize` needs are vacant and all generated names differ. -/
theorem unclaimed_of_nodup (hg : g.Linked) (hd : g.Distinct) (hnormal : g.normalize = .ok normal)
    (hplaces : (placeNames normal).Nodup) (hsteps : ((normal.steps showEvents).map (·.name)).Nodup) :
    g.Unclaimed showEvents := by
  refine ⟨(exists_normalize_iff hg hd).1 ⟨normal, hnormal⟩, fun e he => ?_⟩
  refine not_isDuplicate_of_toAcceptingNet (fun normal' hnormal' => ?_) (fun normal' hnormal' => ?_) he
  · cases hnormal.symm.trans hnormal'
    exact hplaces
  · cases hnormal.symm.trans hnormal'
    exact hsteps

theorem exists_inclusive_of_not_supported (h : ¬ Supported g) : ∃ n, g.firstUnsupported? = some n ∧
    ∃ direction, (g.node n).kind = .gateway .inclusive direction := by
  cases hfirst : g.firstUnsupported? with
  | none => exact absurd (supported_of_firstUnsupported? hfirst) h
  | some n =>
    have hn := List.find?_some hfirst
    refine ⟨n, rfl, ?_⟩
    split at hn
    · rename_i direction hkind
      exact ⟨direction, hkind⟩
    · cases hn

theorem firstUnsupported?_eq_none (h : Supported g) : g.firstUnsupported? = none := by
  refine List.find?_eq_none.2 fun n _ hn => ?_
  split at hn
  · rename_i direction hkind
    exact h n direction hkind
  · cases hn

end ProcessGraph

namespace ProcessDeclaration

open Identifier Construction ProcessGraph

variable {d : ProcessDeclaration} {g normal : ProcessGraph} {showEvents : Bool}

/-- `construct` succeeds on the gateway form of a local graph that was built just if nothing is lacking. -/
theorem checks_construct_of_build (h : d.build = .ok g) (hlocal : g.Local) (hsupported : Supported g)
    (hnormal : g.normalize = .ok normal) :
    Checks (fun _ _ => True) (g.Furnished ∧ normal.Concluded) (Construction.construct normal showEvents)
      (start normal) := by
  obtain ⟨_, hd⟩ := declares_of_build h
  have hattached := attached_normalize hd.linked hd.distinct hnormal
  rw [← hattached.furnished_iff]
  exact checks_construct (normal_normalize hd.linked hd.distinct hnormal)
    ((sound_of_build h).normalize hnormal) (hlocal.normalize hd.linked hd.distinct hnormal)
    (hattached.refines.supported hsupported)

/-- `toAcceptingNet` converts a graph that was built and is local, and where nothing is taken that is
generated, just if no gateway is inclusive and nothing is lacking. Otherwise it names a gateway that is
inclusive, if there is one, or a node that lacks something. -/
theorem converts_iff (hbuild : d.build = .ok g) (hlocal : g.Local) (hunclaimed : g.Unclaimed showEvents) :
    ∃ normal, g.normalize = .ok normal ∧
      ((∃ a, g.toAcceptingNet showEvents = .ok a) ↔ Supported g ∧ g.Furnished ∧ normal.Concluded) ∧
      (¬ Supported g → ∃ n direction, (g.node n).kind = .gateway .inclusive direction ∧
        g.toAcceptingNet showEvents = .error (.unsupported (g.node n).id)) ∧
      (Supported g → ¬ (g.Furnished ∧ normal.Concluded) →
        ∃ node deficiency, g.toAcceptingNet showEvents = .error (.deficient node deficiency)) := by
  obtain ⟨_, hd⟩ := declares_of_build hbuild
  obtain ⟨normal, hnormal⟩ := (exists_normalize_iff hd.linked hd.distinct).2 hunclaimed.ids
  have hrefused : ¬ Supported g → ∃ n direction, (g.node n).kind = .gateway .inclusive direction ∧
      g.toAcceptingNet showEvents = .error (.unsupported (g.node n).id) := by
    intro h
    obtain ⟨n, hfirst, direction, hkind⟩ := exists_inclusive_of_not_supported h
    exact ⟨n, direction, hkind, by simp only [toAcceptingNet, hfirst]⟩
  refine ⟨normal, hnormal, ?_⟩
  by_cases hsupported : Supported g
  · have hfirst := firstUnsupported?_eq_none hsupported
    -- the first part that fails tells what is lacking; a name that is taken is out of the question
    have hchecks : Checks (fun _ _ => True) (g.Furnished ∧ normal.Concluded)
        (Construction.construct normal showEvents) (start normal) :=
      checks_construct_of_build hbuild hlocal hsupported hnormal
    unfold Checks at hchecks
    cases hrun : Construction.construct normal showEvents (start normal) with
    | ok u c =>
      rw [hrun] at hchecks
      have hok := toAcceptingNet_of_construct hfirst hnormal hrun
      exact ⟨⟨fun _ => ⟨hsupported, hchecks.1⟩, fun _ => ⟨_, hok⟩⟩, hrefused,
        fun _ hnot => absurd hchecks.1 hnot⟩
    | error e c =>
      rw [hrun] at hchecks
      have herror : g.toAcceptingNet showEvents = .error e := by
        simp only [toAcceptingNet, hfirst, hnormal, ProcessGraph.construct, hrun, Except.mapError, bind,
          Except.bind]
      obtain ⟨hdeficient, hnot⟩ := hchecks.resolve_left (hunclaimed.names e herror)
      refine ⟨⟨?_, fun h => absurd h.2 hnot⟩, hrefused, fun _ _ => ?_⟩
      · rintro ⟨a, ha⟩
        rw [herror] at ha
        cases ha
      · cases e with
        | deficient node deficiency => exact ⟨node, deficiency, herror⟩
        | _ => exact hdeficient.elim
  · refine ⟨⟨?_, fun h => absurd h.1 hsupported⟩, hrefused, fun h => absurd h hsupported⟩
    rintro ⟨a, ha⟩
    obtain ⟨n, _, _, herror⟩ := hrefused hsupported
    rw [herror] at ha
    cases ha

/-- In a graph that was built and is legible nothing is taken but perhaps ids for gateway form. -/
theorem unclaimed_of_legible (hbuild : d.build = .ok g) (hlegible : g.Legible)
    (hnormal : g.normalize = .ok normal) : g.Unclaimed showEvents := by
  obtain ⟨_, hd⟩ := declares_of_build hbuild
  have hsound := (sound_of_build hbuild).normalize hnormal
  have htelling := hlegible.telling (derived_normalize hd.linked hd.distinct hnormal) hsound
  exact unclaimed_of_nodup hd.linked hd.distinct hnormal
    (placeNames_sublist.nodup (nodup_allPlaceNames htelling)) (nodup_names_steps htelling hsound)

/-- A subprocess that waits for the error `Alarm`, while the error that ends it is the one given. Whoever
hears it terminates the whole process. -/
def alert (raised : String) : ProcessDeclaration where
  processId := "p"
  name := "p"
  nodes := [⟨"a", none, .startEvent .normal, "p"⟩,
    ⟨"caught", some "Alarm", .boundaryEvent .error "sp", "p"⟩, ⟨"done", none, .endEvent .normal, "p"⟩,
    ⟨"halt", none, .endEvent .terminate, "p"⟩, ⟨"s", none, .startEvent .normal, "sp"⟩,
    ⟨"sp", none, .subprocess 0, "p"⟩, ⟨"sp-done", none, .endEvent .normal, "sp"⟩,
    ⟨"sp-fail", some raised, .endEvent .error, "sp"⟩, ⟨"x", none, .gateway .exclusive .diverging, "sp"⟩]
  flows := [⟨"f1", none, .sequence, "a", "sp", none⟩, ⟨"f2", none, .sequence, "sp", "done", none⟩,
    ⟨"f3", none, .sequence, "caught", "halt", none⟩, ⟨"h1", none, .sequence, "s", "x", none⟩,
    ⟨"h2", none, .sequence, "x", "sp-done", none⟩, ⟨"h3", none, .sequence, "x", "sp-fail", none⟩]

theorem converts_alert : (alert "Alarm").converts fun g _ _ => g.hasPlainIds && g.isLocal := by
  delta converts build Construction.construct addFlowPlaces addNodes addNode addGateway
    joinSubprocesses joinSubprocess normalEndPlaces addTaskBoundaries addSubprocessBoundaries
    addSubprocessBoundary mergeRaisingEnds raisingEnds terminateSubprocess terminateRoot startsOf
    endsOf boundaryEventsOf terminationsOf ProcessGraph.normalize firstUnsupported?
  simp only [sortedPlaces_eq_insertionSort, sortedNodes_eq_insertionSort,
    sortedFlows_eq_insertionSort, select_eq_insertionSort,
    subprocessesInnermostFirst_eq_insertionSort]
  decide +kernel

theorem refuses_alert : (alert "Oops").refuses (.deficient "caught" (.notRaised .error "Alarm" "sp")) := by
  delta refuses toAcceptingNet ProcessGraph.construct build Construction.construct addFlowPlaces addNodes
    addNode addGateway joinSubprocesses joinSubprocess normalEndPlaces addTaskBoundaries
    addSubprocessBoundaries addSubprocessBoundary mergeRaisingEnds raisingEnds terminateSubprocess
    terminateRoot startsOf endsOf boundaryEventsOf terminationsOf ProcessGraph.normalize firstUnsupported?
  simp only [sortedPlaces_eq_insertionSort, sortedNodes_eq_insertionSort,
    sortedFlows_eq_insertionSort, select_eq_insertionSort,
    subprocessesInnermostFirst_eq_insertionSort]
  decide +kernel

theorem normalizes_alert : (alert "Oops").build.toOption.any fun g =>
    g.hasPlainIds && g.isLocal && g.normalize.toOption.isSome := by
  delta build ProcessGraph.normalize
  simp only [sortedNodes_eq_insertionSort]
  decide +kernel

/-- The alarm is heard where it is raised; where another error ends the subprocess, no end raises it. -/
theorem alert_converts_iff :
    (∃ g normal, (alert "Alarm").build = .ok g ∧ g.Local ∧ g.Unclaimed true ∧ g.normalize = .ok normal ∧
      Supported g ∧ g.Furnished ∧ normal.Concluded) ∧
    ∃ g normal, (alert "Oops").build = .ok g ∧ g.Local ∧ g.Unclaimed false ∧ g.normalize = .ok normal ∧
      ¬ (Supported g ∧ g.Furnished ∧ normal.Concluded) := by
  constructor
  · obtain ⟨g, normal, _, hbuild, hnormal, -, hok, hcheck⟩ := exists_of_converts converts_alert
    obtain ⟨hplain, hlocal⟩ := Bool.and_eq_true_iff.1 hcheck
    have hlocal := local_of_isLocal hlocal
    have hunclaimed : g.Unclaimed true :=
      unclaimed_of_legible hbuild (legible_of_hasPlainIds hplain) hnormal
    obtain ⟨normal', hnormal', hiff, -⟩ := converts_iff hbuild hlocal hunclaimed
    cases hnormal.symm.trans hnormal'
    exact ⟨g, normal, hbuild, hlocal, hunclaimed, hnormal, hiff.1 ⟨_, hok⟩⟩
  · obtain ⟨g, hbuild, herror⟩ := exists_of_refuses refuses_alert
    have hcheck := normalizes_alert
    rw [hbuild] at hcheck
    obtain ⟨hcheck, hsome⟩ := Bool.and_eq_true_iff.1 hcheck
    obtain ⟨hplain, hlocal⟩ := Bool.and_eq_true_iff.1 hcheck
    have hlocal := local_of_isLocal hlocal
    cases hnormal : g.normalize with
    | error e =>
      rw [hnormal] at hsome
      cases hsome
    | ok normal =>
      have hunclaimed : g.Unclaimed false :=
        unclaimed_of_legible hbuild (legible_of_hasPlainIds hplain) hnormal
      obtain ⟨normal', hnormal', hiff, -⟩ := converts_iff hbuild hlocal hunclaimed
      cases hnormal.symm.trans hnormal'
      refine ⟨g, normal, hbuild, hlocal, hunclaimed, hnormal, fun h => ?_⟩
      obtain ⟨a, ha⟩ := hiff.2 h
      rw [herror] at ha
      cases ha

end ProcessDeclaration

end ProcessNet
