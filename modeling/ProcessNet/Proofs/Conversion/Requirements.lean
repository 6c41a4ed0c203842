/-
What the parts of a construction require, up to where subprocesses are joined. Flows get their places in any
case. Then each node is required to have flows where tokens come to it and leave it, and each subprocess to
hold a start and a normal end.
-/
import ProcessNet.Proofs.Conversion.Refusal

namespace ProcessNet

/-- Whether a node has no more than its own flows for `addNode` to go by. -/
def NodeKind.isPlain : NodeKind → Bool
  | .subprocess _ | .boundaryEvent _ _ => false
  | _ => true

namespace Construction

open Identifier Net ProcessGraph

variable {α β : Type} {g : ProcessGraph} {c c' d : Construction} {f : FlowId} {p : PlaceId} {n m : NodeId}
  {s : JoinedSubprocess} {showEvents : Bool} {P Q : Prop}

/-- `unless` in front of the rest of a program. -/
theorem grows_unless {failing : Bool} {x : Deficiency} {rest : PUnit → ConstructionM β}
    (h : failing = false → Grows Q (rest ()) c) :
    Grows (failing = false ∧ Q) (if failing then lacks g n x >>= rest else rest ()) c := by
  cases failing with
  | true => exact checks_lacks fun h => Bool.noConfusion h.1
  | false => exact (h rfl).iff (and_iff_right rfl).symm

/-! ## Places of flows -/

theorem sturdy_start (g : ProcessGraph) : Sturdy (start g) := ⟨(valid_start g).consistent, rfl, rfl⟩

theorem checks_addFlowPlace (hc : Sturdy c) (f : FlowId) : Checks (fun _ => Sturdy) True (addFlowPlace g f) c := by
  refine checks_get ?_
  split
  · exact checks_modify ⟨hc.consistent, hc.fits⟩
  · refine Checks.after (grows_addPlace hc _) fun p d _ hd => checks_modify ?_
    exact ⟨hd.sturdy.consistent, hd.sturdy.fits⟩

theorem checks_addFlowPlaces : Checks (fun _ => Sturdy) True (addFlowPlaces g) (start g) :=
  (Checks.forM (I := fun _ => Sturdy) (fun f _ _ hd => checks_addFlowPlace hd f) (sturdy_start g)).iff
    (iff_true_intro fun _ _ => trivial)

/-- After `addFlowPlaces` all flows have their places, each of them there. -/
theorem stocked_of_addFlowPlaces (h : addFlowPlaces g (start g) = .ok () c) (hc : Sturdy c) :
    Stocked g c where
  sturdy := hc
  provided _ := exists_place_of_addFlowPlaces h
  live := (sited_of_addFlowPlaces h).live
  shared := (ground_of_addFlowPlaces h).shared

/-! ## Nodes -/

theorem grows_addNodeStep (hg : g.Linked) (hc : Stocked g c) {label : Option String} :
    Grows ((g.node n).incoming ≠ [] ∧ (g.node n).outgoing ≠ []) (addNodeStep g n label) c := by
  refine (grows_inPlace hg hc.sturdy hc.provided n).bind fun p d hp _ hd => ?_
  have hc' := hc.kept hd.toKept
  refine (grows_outPlace hg hc'.sturdy hc'.provided n).before fun q d' hq _ hd' => ?_
  refine grows_addStep_unit hd'.sturdy (List.forall_mem_singleton.2 ?_) (List.forall_mem_singleton.2 ?_)
  · exact hd'.place p (hd.place p (hc.live_inPlace hp))
  · exact hd'.place q (hc'.live_outPlace hq)

theorem grows_addChoices (hc : Sturdy c) {node : Node} {inputs outputs : List PlaceId}
    (hin : ∀ p ∈ inputs, c.net.hasPlace p) (hout : ∀ p ∈ outputs, c.net.hasPlace p) :
    Grows True (addChoices node inputs outputs) c := by
  refine grows_forM hc fun e he d hd => ?_
  obtain ⟨⟨p, q⟩, k⟩ := e
  obtain ⟨hp, hq⟩ := mem_of_choice he
  exact grows_addStep_unit hd.sturdy (List.forall_mem_singleton.2 (hd.place p (hin p hp)))
    (List.forall_mem_singleton.2 (hd.place q (hout q hq)))

theorem grows_sortedPlaces (hc : Stocked g c) {flows : List FlowId}
    (hflows : ∀ f ∈ flows, index f < g.flows.size) : Grows True (sortedPlaces g flows) c :=
  grows_mapM hc.sturdy fun f hf _ hd => grows_flowPlace hd.sturdy <|
    hc.provided.kept hd.flowPlaces f (hflows f (List.mem_mergeSort.1 hf))

theorem Stocked.live_sortedPlaces (hc : Stocked g c) {flows : List FlowId} {ps : List PlaceId}
    (h : sortedPlaces g flows c = .ok ps d) : ∀ p ∈ ps, c.net.hasPlace p := by
  intro p hp
  obtain ⟨f, -, hf⟩ := (sortedPlaces_eq_ok h).2.2 p hp
  exact hc.live f p hf

theorem grows_addGateway (hg : g.Linked) (hc : Stocked g c) {kind : GatewayKind}
    {direction : GatewayDirection} (hinclusive : kind ≠ .inclusive) :
    Grows ((g.node n).incoming ≠ [] ∧ (g.node n).outgoing ≠ []) (addGateway g n kind direction) c := by
  simp only [addGateway]
  split
  · exact grows_addNodeStep hg hc
  split
  · rename_i hempty
    exact checks_lacks fun h => h.1 (List.isEmpty_iff.1 hempty)
  rename_i hin
  split
  · rename_i hempty
    exact checks_lacks fun h => h.2 (List.isEmpty_iff.1 hempty)
  rename_i hout
  refine Grows.iff ?_ (iff_true_intro ⟨fun h => hin (by rw [h]; rfl), fun h => hout (by rw [h]; rfl)⟩).symm
  refine (grows_sortedPlaces hc fun f hf => ((hg.mem_incoming n f).1 hf).1).after fun ps d hps hd => ?_
  have hc' := hc.kept hd.toKept
  refine (grows_sortedPlaces hc' fun f hf => ((hg.mem_outgoing n f).1 hf).1).after fun qs d' hqs hd' => ?_
  have hpslive : ∀ p ∈ ps, d'.net.hasPlace p := fun p hp =>
    hd'.place p (hd.place p (hc.live_sortedPlaces hps p hp))
  have hqslive : ∀ q ∈ qs, d'.net.hasPlace q := fun q hq => hd'.place q (hc'.live_sortedPlaces hqs q hq)
  cases kind with
  | parallel => exact grows_addStep_unit hd'.sturdy hpslive hqslive
  | exclusive => exact grows_addChoices hd'.sturdy hpslive hqslive
  | inclusive => exact absurd rfl hinclusive

/-- The places behind the starts among the nodes bear no token yet. -/
def Unmarked (g : ProcessGraph) (l : List NodeId) (c : Construction) : Prop :=
  ∀ f p, c.flowPlaces.lookup f = some p → (g.flow f).source ∈ l →
    (g.node (g.flow f).source).kind.isStart → c.initial.tokens p = 0

theorem Unmarked.grown {l : List NodeId} (h : Unmarked g (n :: l) c) (hd : Grown c d) : Unmarked g l d := by
  intro f p hf hmem
  rw [hd.initial]
  exact h f p (hd.flowPlaces ▸ hf) (List.mem_cons_of_mem _ hmem)

/-- `markStart` marks a place that no other start marks. -/
theorem checks_markStart (hc : Stocked g c) {l : List NodeId} (hn : n ∉ l)
    (hstart : (g.node n).kind.isStart) (hun : Unmarked g (n :: l) c)
    (hf : c.flowPlaces.lookup f = some p) (hsource : (g.flow f).source = n) :
    Checks (fun _ d => Stocked g d ∧ Unmarked g l d) True (markStart p) c := by
  have hzero : c.initial.tokens p = 0 := hun f p hf (hsource ▸ List.mem_cons_self) (hsource ▸ hstart)
  have hadd : c.initial.add p 1 = .ok (c.initial.set p 1) := by
    rw [Marking.add, hzero, if_pos (by decide)]
  refine checks_get ?_
  rw [hadd]
  refine ⟨trivial, hc.kept ⟨⟨hc.sturdy.consistent, hc.sturdy.fits⟩, rfl, rfl, fun _ => id, fun _ => id⟩, ?_⟩
  intro k q hk hmem hkstart
  have hne : q ≠ p := by
    rintro rfl
    rcases hc.shared f k q hf hk with rfl | ⟨-, hroot⟩
    · exact hn (hsource ▸ hmem)
    · simp [entersRootEnd, hkstart] at hroot
  rw [Marking.tokens_set, if_neg hne]
  exact hun k q hk (List.mem_cons_of_mem _ hmem) hkstart

/-- `addNode` succeeds where a node has flows on the sides where it needs them. -/
theorem checks_addNode (hg : g.Linked) (hsupported : Supported g) (hc : Stocked g c) {l : List NodeId}
    (hn : n ∉ l) (hun : Unmarked g (n :: l) c) :
    Checks (fun _ d => Stocked g d ∧ Unmarked g l d) ((g.node n).kind.isPlain → g.Served n) (addNode g n) c := by
  -- all parts but `markStart` leave the markings, so starts that come later are unmarked still
  have hgrown : ∀ d, Grown c d → Stocked g d ∧ Unmarked g l d := fun d hd =>
    ⟨hc.kept hd.toKept, hun.grown hd⟩
  simp only [addNode]
  cases hkind : (g.node n).kind with
  | startEvent trigger =>
    refine Checks.iff (P := (g.node n).outgoing ≠ []) ?_
      ⟨fun h _ => ⟨by rw [hkind]; exact fun hin => Bool.noConfusion hin, fun _ => h⟩,
        fun h => (h rfl).outgoing (by rw [hkind]; rfl)⟩
    refine Checks.before (grows_outPlace hg hc.sturdy hc.provided n) fun p d hp _ hd => ?_
    obtain ⟨rfl, f, hf, hsource⟩ := outPlace_gives hg hp
    split
    · exact checks_markStart hc hn (by rw [hkind]; rfl) hun hf hsource
    · exact checks_pure (hgrown _ hd)
  | endEvent trigger =>
    refine Checks.iff (P := (g.node n).incoming ≠ []) ?_
      ⟨fun h _ => ⟨fun _ => h, by rw [hkind]; exact fun hout => Bool.noConfusion hout⟩,
        fun h => (h rfl).incoming (by rw [hkind]; rfl)⟩
    refine Checks.before (grows_inPlace hg hc.sturdy hc.provided n) fun p d hp _ hd => ?_
    split
    · exact checks_modify (hgrown _ ⟨⟨⟨hd.sturdy.consistent, hd.sturdy.fits⟩, hd.flowPlaces, hd.rootSink,
        hd.place, hd.transition⟩, hd.initial⟩)
    · exact checks_pure (hgrown _ hd)
  | task | catchEvent | throwEvent =>
    refine (grows_addNodeStep hg hc).mono (fun _ => hgrown)
      ⟨fun h _ => ⟨fun _ => h.1, fun _ => h.2⟩, fun h => ⟨(h rfl).incoming ?_, (h rfl).outgoing ?_⟩⟩
    · rw [hkind]
      rfl
    · rw [hkind]
      rfl
  | gateway kind direction =>
    have hinclusive : kind ≠ .inclusive := by
      rintro rfl
      exact hsupported n direction hkind
    refine (grows_addGateway hg hc hinclusive).mono (fun _ => hgrown)
      ⟨fun h _ => ⟨fun _ => h.1, fun _ => h.2⟩, fun h => ⟨(h rfl).incoming ?_, (h rfl).outgoing ?_⟩⟩
    · rw [hkind]
      rfl
    · rw [hkind]
      rfl
  | subprocess | boundaryEvent =>
    exact (grows_pure hc.sturdy ()).mono (fun _ => hgrown) ⟨fun _ h => Bool.noConfusion h, fun _ => trivial⟩

theorem checks_addNodes (hg : g.Linked) (hsupported : Supported g) (hc : Stocked g c)
    (hinitial : c.initial = ∅) :
    Checks (fun _ => Stocked g) (∀ n, index n < g.nodes.size → (g.node n).kind.isPlain → g.Served n) (addNodes g) c := by
  refine (Checks.forM (I := fun l d => l.Nodup ∧ Stocked g d ∧ Unmarked g l d)
    (R := fun n => (g.node n).kind.isPlain → g.Served n) (fun n l d hd => ?_)
    ⟨nodup_sortedNodes g, hc, fun _ _ _ _ _ => ?_⟩).mono (fun _ _ h => h.2.1) ?_
  · obtain ⟨hnodup, hd, hun⟩ := hd
    obtain ⟨hn, hnodup⟩ := List.nodup_cons.1 hnodup
    exact (checks_addNode hg hsupported hd hn hun).of fun _ _ _ _ h => ⟨hnodup, h⟩
  · rw [hinitial]
    rfl
  · simp only [mem_sortedNodes]

/-! ## Subprocesses -/

theorem isEmpty_iff_of_forall₂ {R : α → β → Prop} {l : List α} {l' : List β} (h : List.Forall₂ R l l') :
    l'.isEmpty = false ↔ l ≠ [] := by
  cases h with
  | nil => exact ⟨nofun, fun h => absurd rfl h⟩
  | cons => exact ⟨fun _ => List.cons_ne_nil _ _, fun _ => rfl⟩

/-- `joinSubprocess` succeeds where the subprocess has flows on both sides, and directly holds a start
and a normal end. -/
theorem grows_joinSubprocess (hg : g.Linked) (hc : Stocked g c) (hkind : (g.node n).kind.isSubprocess)
    (hstarts : ∀ m ∈ g.startsOf (g.node n).id, (g.node m).outgoing ≠ [])
    (hends : ∀ m ∈ g.normalEndsOf (g.node n).id, (g.node m).incoming ≠ []) :
    Grows (g.Served n ∧ g.Passable n) (joinSubprocess g n) c := by
  have hneeds : (g.node n).kind.needsIncoming ∧ (g.node n).kind.needsOutgoing := by
    cases hk : (g.node n).kind with
    | subprocess => exact ⟨rfl, rfl⟩
    | _ => rw [hk] at hkind; cases hkind
  have hiff : (g.node n).incoming ≠ [] ∧ (g.node n).outgoing ≠ [] ∧ g.startsOf (g.node n).id ≠ [] ∧
      g.normalEndsOf (g.node n).id ≠ [] ↔ g.Served n ∧ g.Passable n :=
    ⟨fun ⟨hin, hout, hs, he⟩ => ⟨⟨fun _ => hin, fun _ => hout⟩, hs, he⟩,
      fun ⟨⟨hin, hout⟩, hs, he⟩ => ⟨hin hneeds.1, hout hneeds.2, hs, he⟩⟩
  refine Grows.iff ?_ hiff
  unfold joinSubprocess
  refine (grows_inPlace hg hc.sturdy hc.provided n).bind fun before d hbefore _ hd => ?_
  obtain ⟨rfl, -⟩ := inPlace_takes hg hbefore
  refine (grows_outPlace hg hc.sturdy hc.provided n).bind fun behind d hbehind _ hd => ?_
  obtain ⟨rfl, -⟩ := outPlace_gives hg hbehind
  refine (grows_mapM_outPlace hg hc.sturdy hc.provided hstarts).after fun starts d hstarts' hd => ?_
  obtain ⟨rfl, hstarts'⟩ := mapM_outPlace_eq_ok hstarts'
  refine (grows_unless (Q := g.normalEndsOf (g.node n).id ≠ []) fun _ => ?_).iff
    (and_congr_left' (isEmpty_iff_of_forall₂ hstarts'))
  refine Grows.after (grows_mapM_inPlace hg hc.sturdy hc.provided hends) fun ends d hends' hd => ?_
  obtain ⟨rfl, hends'⟩ := mapM_inPlace_eq_ok hends'
  refine (grows_unless (Q := True) fun _ => ?_).iff
    ((iff_of_eq (and_true _)).trans (isEmpty_iff_of_forall₂ hends'))
  have hstartslive : ∀ p ∈ starts, d.net.hasPlace p := by
    intro p hp
    obtain ⟨m, -, hrun⟩ := exists_of_forall₂ hstarts'.flip hp
    exact hc.live_outPlace hrun
  have hendslive : ∀ p ∈ ends, d.net.hasPlace p := by
    intro p hp
    obtain ⟨m, -, hrun⟩ := exists_of_forall₂ hends'.flip hp
    exact hc.live_inPlace hrun
  have hbeforelive := hc.live_inPlace hbefore
  have hbehindlive := hc.live_outPlace hbehind
  refine Grows.after (grows_addStep hc.sturdy (List.forall_mem_singleton.2 hbeforelive) hstartslive)
    fun enter d' _ hd' => ?_
  refine Grows.after (grows_mapM hd'.sturdy fun e he d'' hd'' => ?_) fun _ _ _ hd'' =>
    grows_pure hd''.sturdy _
  have he := hendslive e.1 (List.fst_mem_of_mem_zipIdx he)
  exact grows_addStep hd''.sturdy
    (List.forall_mem_singleton.2 (hd''.place _ (hd'.place _ he)))
    (List.forall_mem_singleton.2 (hd''.place _ (hd'.place _ hbehindlive)))

theorem grows_joinSubprocesses (hg : g.Linked) (hc : Stocked g c)
    (hplain : ∀ n, index n < g.nodes.size → (g.node n).kind.isPlain → g.Served n) :
    Grows (∀ n, (g.node n).kind.isSubprocess → g.Served n ∧ g.Passable n) (joinSubprocesses g) c := by
  refine (Grows.mapM hc.sturdy fun n hn d hd => ?_).iff
    ⟨fun h n hn => h n (mem_of_isSubprocess hn), fun h n hn => h n (mem_subprocessesInnermostFirst.1 hn).2⟩
  refine grows_joinSubprocess hg (hc.kept hd.toKept) (mem_subprocessesInnermostFirst.1 hn).2
    (fun m hm => ?_) fun m hm => ?_
  · obtain ⟨hlt, -, hstart⟩ := mem_startsOf.1 hm
    cases hk : (g.node m).kind with
    | startEvent => exact (hplain m hlt (by rw [hk]; rfl)).outgoing (by rw [hk]; rfl)
    | _ => rw [hk] at hstart; cases hstart
  · obtain ⟨hlt, -, hend⟩ := mem_normalEndsOf.1 hm
    exact (hplain m hlt (by rw [hend]; rfl)).incoming (by rw [hend]; rfl)

/-! ## Events on tasks -/

/-- `addTaskBoundaries` succeeds where events on tasks have a flow behind them. -/
theorem grows_addTaskBoundaries (hg : g.Linked) (hc : Stocked g c)
    (hplain : ∀ n, index n < g.nodes.size → (g.node n).kind.isPlain → g.Served n) :
    Grows (∀ task ∈ g.select (·.kind = .task), ∀ m ∈ g.boundaryEventsOf (g.node task).id,
      (g.node m).outgoing ≠ []) (addTaskBoundaries g showEvents) c := by
  refine Grows.forM hc.sturdy fun task htask d hd => Grows.forM hd.sturdy fun m _ d' hd' => ?_
  have hc' := hc.kept (hd.trans hd').toKept
  obtain ⟨hlt, hkind⟩ := mem_select.1 htask
  have hkind : (g.node task).kind = .task := of_decide_eq_true hkind
  have hin : (g.node task).incoming ≠ [] := (hplain task hlt (by rw [hkind]; rfl)).incoming (by rw [hkind]; rfl)
  refine Grows.after ((grows_inPlace hg hc'.sturdy hc'.provided task).iff (iff_true_intro hin))
    fun p e hp he => ?_
  obtain ⟨rfl, -⟩ := inPlace_takes hg hp
  refine (grows_outPlace hg hc'.sturdy hc'.provided m).before fun q e hq _ he => ?_
  obtain ⟨rfl, -⟩ := outPlace_gives hg hq
  exact grows_addStep_unit hc'.sturdy (List.forall_mem_singleton.2 (hc'.live_inPlace hp))
    (List.forall_mem_singleton.2 (hc'.live_outPlace hq))

end Construction

end ProcessNet
