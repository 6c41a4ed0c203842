/-
Regions: a subprocess with all that lies inside it at any depth. In a graph that was built, subprocesses
inside a region are deeper than the one that it belongs to, and the root process lies outside. Where
flows and boundary events do not cross the border of a region, they do not cross it in gateway form
either, and where they stay in their processes they still do so there.
-/
import ProcessNet.Proofs.Process.Normal
import ProcessNet.Proofs.Process.WellFormed

namespace ProcessNet

open Identifier

/-! ## Depths -/

/-- No node has the id of the process, and what a subprocess holds is deeper than it. -/
structure ProcessGraph.Layered (g : ProcessGraph) : Prop where
  apart : ∀ n, index n < g.nodes.size → (g.node n).id ≠ g.processId
  deeper : ∀ n m, (g.node n).kind.isSubprocess → (g.node m).kind.isSubprocess →
    (g.node n).process = (g.node m).id → g.depth m < g.depth n

/-- The process is the root process or that of a subprocess. -/
def ProcessGraph.HasProcess (g : ProcessGraph) (process : String) : Prop :=
  process = g.processId ∨ ∃ m, (g.node m).kind.isSubprocess ∧ (g.node m).id = process

/-- All nodes and flows that are there belong to processes of the graph, and subprocesses are nested. -/
structure ProcessGraph.Rooted (g : ProcessGraph) : Prop where
  node : ∀ n, index n < g.nodes.size → g.HasProcess (g.node n).process
  flow : ∀ f, index f < g.flows.size → g.HasProcess (g.flow f).process
  layered : g.Layered

namespace ProcessDeclaration

variable {d : ProcessDeclaration} {g : ProcessGraph}

theorem layered_of_build (h : d.build = .ok g) : g.Layered := by
  have hw := wellFormed_of_build h
  obtain ⟨-, hd⟩ := declares_of_build h
  refine ⟨fun n hn => ?_, fun n m hn hm hin => ?_⟩
  · obtain ⟨x, hx, hid, -⟩ := exists_declared_of_build h hn
    rw [hid, hd.processId]
    exact hw.root x hx
  · obtain ⟨x, hx, hidx, hprocess, dx, hkx, hdx⟩ :=
      exists_declared_of_build h (ProcessGraph.lt_of_isSubprocess hn)
    obtain ⟨y, hy, hidy, -, dy, hky, hdy⟩ :=
      exists_declared_of_build h (ProcessGraph.lt_of_isSubprocess hm)
    rw [hkx, NodeKind.isSubprocess_atDepth] at hn
    rw [hky, NodeKind.isSubprocess_atDepth] at hm
    have hsame : x.process = y.id := by rw [← hprocess, ← hidy, hin]
    have hsucc : d.Nested x.id (dy + 1) := .inside hx hn (hsame ▸ hdy hm)
    rw [ProcessGraph.depth, ProcessGraph.depth, hkx, hky, NodeKind.depth?_atDepth hn,
      NodeKind.depth?_atDepth hm, (hdx hn).unique hw.ids hw.root hsucc]
    exact Nat.lt_succ_self dy

end ProcessDeclaration

namespace ProcessGraph

variable {g g' : ProcessGraph} {n m k : NodeId} {inside : String → Prop} {process : String}

/-! ## What lies inside a subprocess -/

/-- The processes inside the subprocess `n`: its own, and those of the subprocesses in there. -/
inductive Inside (g : ProcessGraph) (n : NodeId) : String → Prop
  | own : Inside g n (g.node n).id
  | nested {m : NodeId} : (g.node m).kind.isSubprocess → Inside g n (g.node m).process →
    Inside g n (g.node m).id

/-- Flows and boundary events do not cross the border of what lies inside. -/
structure SealedBy (g : ProcessGraph) (inside : String → Prop) : Prop where
  source : ∀ f, index f < g.flows.size →
    (inside (g.flow f).process ↔ inside (g.node (g.flow f).source).process)
  target : ∀ f, index f < g.flows.size →
    (inside (g.flow f).process ↔ inside (g.node (g.flow f).target).process)
  event : ∀ m k trigger, (g.node m).kind = .boundaryEvent trigger (g.node k).id →
    (g.node k).kind.isActivity → (inside (g.node m).process ↔ inside (g.node k).process)

/-- Flows and boundary events do not cross the border of the subprocess `n`. -/
def Sealed (g : ProcessGraph) (n : NodeId) : Prop := g.SealedBy (g.Inside n)

/-- What lies inside the subprocess `n`, as far as it follows from how subprocesses are nested. -/
structure Enclosure (g : ProcessGraph) (n : NodeId) (inside : String → Prop) : Prop where
  subprocess : (g.node n).kind.isSubprocess
  self : inside (g.node n).id
  outer : ¬ inside (g.node n).process
  root : ¬ inside g.processId
  down : ∀ m, (g.node m).kind.isSubprocess → inside (g.node m).process → inside (g.node m).id
  up : ∀ m, (g.node m).kind.isSubprocess → inside (g.node m).id → m = n ∨ inside (g.node m).process
  deeper : ∀ m, (g.node m).kind.isSubprocess → inside (g.node m).id → m = n ∨ g.depth n < g.depth m
  held : ∀ process, inside process → ∃ m, (g.node m).kind.isSubprocess ∧ (g.node m).id = process
  layered : ∀ m k, (g.node m).kind.isSubprocess → (g.node k).kind.isSubprocess →
    (g.node m).process = (g.node k).id → g.depth k < g.depth m

/-- What lies inside a subprocess whose border is not crossed. -/
structure Region (g : ProcessGraph) (n : NodeId) (inside : String → Prop) : Prop extends
    Enclosure g n inside where
  confined : g.SealedBy inside

/-- Each flow belongs to the process of its two nodes, and each event on an activity to that of it. -/
structure Local (g : ProcessGraph) : Prop where
  source : ∀ f, index f < g.flows.size → (g.node (g.flow f).source).process = (g.flow f).process
  target : ∀ f, index f < g.flows.size → (g.node (g.flow f).target).process = (g.flow f).process
  event : ∀ m k trigger, (g.node m).kind = .boundaryEvent trigger (g.node k).id →
    (g.node k).kind.isActivity → (g.node m).process = (g.node k).process

theorem Local.sealed (h : g.Local) (n : NodeId) : g.Sealed n :=
  ⟨fun f hf => by rw [h.source f hf], fun f hf => by rw [h.target f hf],
    fun m k trigger hm hk => by rw [h.event m k trigger hm hk]⟩

/-- Whether the graph is local, as a check. -/
def isLocal (g : ProcessGraph) : Bool :=
  (g.flows.items.all fun f =>
    (g.node f.source).process = f.process && (g.node f.target).process = f.process) &&
  g.nodes.items.all fun m => (default :: g.nodes.items).all fun k =>
    match m.kind with
    | .boundaryEvent _ activity => activity ≠ k.id || m.process = k.process
    | _ => true

theorem node_mem (g : ProcessGraph) (m : NodeId) : g.node m ∈ default :: g.nodes.items := by
  rw [node, Arena.get?]
  cases hm : g.nodes.items[index m]? with
  | none => exact List.mem_cons_self
  | some x => exact List.mem_cons_of_mem _ (List.mem_of_getElem? hm)

theorem flow_mem {f : FlowId} (hf : index f < g.flows.size) : g.flow f ∈ g.flows.items := by
  rw [flow, Arena.get?, List.getElem?_eq_getElem hf]
  exact List.getElem_mem hf

theorem local_of_isLocal (h : g.isLocal) : g.Local := by
  obtain ⟨hflows, hnodes⟩ := Bool.and_eq_true_iff.1 h
  rw [List.all_eq_true] at hflows hnodes
  have hflow : ∀ f, index f < g.flows.size →
      (g.node (g.flow f).source).process = (g.flow f).process ∧
        (g.node (g.flow f).target).process = (g.flow f).process := fun f hf => by
    simpa using hflows _ (flow_mem hf)
  refine ⟨fun f hf => (hflow f hf).1, fun f hf => (hflow f hf).2, fun m k trigger hm _ => ?_⟩
  rcases List.mem_cons.1 (node_mem g m) with hdefault | hmem
  · rw [hdefault] at hm
    cases hm
  · have hpair := List.all_eq_true.1 (hnodes _ hmem) _ (node_mem g k)
    rw [hm] at hpair
    simpa using hpair

theorem sealed_of_isLocal (h : g.isLocal) (n : NodeId) : g.Sealed n := (local_of_isLocal h).sealed n

theorem Inside.exists_subprocess (h : g.Inside n process) (hn : (g.node n).kind.isSubprocess)
    (hg : g.Layered) : ∃ m, (g.node m).kind.isSubprocess ∧ (g.node m).id = process ∧
      (m = n ∨ g.depth n < g.depth m) := by
  induction h with
  | own => exact ⟨n, hn, rfl, .inl rfl⟩
  | @nested m hm _ ih =>
    obtain ⟨k, hk, hid, hdeep⟩ := ih
    have hlt := hg.deeper m k hm hk hid.symm
    refine ⟨m, hm, rfl, .inr ?_⟩
    rcases hdeep with rfl | hdeep
    · exact hlt
    · exact Nat.lt_trans hdeep hlt

theorem enclosure_of_layered (hg : g.Layered) (hd : g.Distinct)
    (hn : (g.node n).kind.isSubprocess) : g.Enclosure n (g.Inside n) := by
  have hsame : ∀ {m k : NodeId}, (g.node m).kind.isSubprocess → (g.node k).kind.isSubprocess →
      (g.node m).id = (g.node k).id → m = k := fun hm hk =>
    hd.node _ _ (lt_of_isSubprocess hm) (lt_of_isSubprocess hk)
  refine ⟨hn, .own, fun h => ?_, fun h => ?_, fun m => .nested, fun m hm h => ?_,
    fun m hm h => ?_, fun process h => ?_, hg.deeper⟩
  · -- What is inside is at least as deep as `n`, and what is around `n` is less deep.
    obtain ⟨m, hm, hid, hdeep⟩ := h.exists_subprocess hn hg
    have hlt := hg.deeper n m hn hm hid.symm
    rcases hdeep with rfl | hdeep
    · exact Nat.lt_irrefl _ hlt
    · exact Nat.lt_asymm hlt hdeep
  · obtain ⟨m, hm, hid, -⟩ := h.exists_subprocess hn hg
    exact hg.apart m (lt_of_isSubprocess hm) hid
  · generalize hid : (g.node m).id = process at h
    cases h with
    | own => exact .inl (hsame hm hn hid)
    | @nested k hk hin => exact .inr (hsame hm hk hid ▸ hin)
  · obtain ⟨k, hk, hid, hdeep⟩ := h.exists_subprocess hn hg
    exact hsame hk hm hid ▸ hdeep
  · obtain ⟨m, hm, hid, -⟩ := h.exists_subprocess hn hg
    exact ⟨m, hm, hid⟩

theorem region_of_sealed (hg : g.Layered) (hd : g.Distinct) (hn : (g.node n).kind.isSubprocess)
    (hs : g.Sealed n) : g.Region n (g.Inside n) :=
  ⟨enclosure_of_layered hg hd hn, hs⟩

/-! ## Flows in gateway form -/

/-- The process of each flow is so related to those of its two nodes. -/
structure Flanked (R : String → String → Prop) (g : ProcessGraph) : Prop where
  source : ∀ f, index f < g.flows.size → R (g.flow f).process (g.node (g.flow f).source).process
  target : ∀ f, index f < g.flows.size → R (g.flow f).process (g.node (g.flow f).target).process

section Flanked

variable {R : String → String → Prop} {gateway : Node} {connector : Flow} {move : Flow → Flow}

/-- A gateway and its flow lie where the node lies whose flows they take over. -/
theorem Rerouted.flanked (h : Rerouted g gateway connector move g') (hg : Flanked R g)
    (hprocess : ∀ x, (move x).process = x.process)
    (hold : ∀ f, index f < g.flows.size →
      (g'.node (move (g.flow f)).source).process = (g.node (g.flow f).source).process ∧
      (g'.node (move (g.flow f)).target).process = (g.node (g.flow f).target).process)
    (hnew : R connector.process (g'.node connector.source).process ∧
      R connector.process (g'.node connector.target).process) : Flanked R g' := by
  refine ⟨fun f hf => ?_, fun f hf => ?_⟩
  · rw [h.flowCount, Arena.lt_succ_iff_next] at hf
    rcases hf with hf | rfl
    · rw [h.flow f hf, hprocess, (hold f hf).1]
      exact hg.source f hf
    · rw [h.connector]
      exact hnew.1
  · rw [h.flowCount, Arena.lt_succ_iff_next] at hf
    rcases hf with hf | rfl
    · rw [h.flow f hf, hprocess, (hold f hf).2]
      exact hg.target f hf
    · rw [h.connector]
      exact hnew.2

theorem Rerouted.process_eq (h : Rerouted g gateway connector move g') (m : NodeId) :
    (g'.node m).process = if m = g.nodes.next then gateway.process else (g.node m).process := by
  have hbare := congrArg (·.process) (h.bare m)
  split at hbare
  · rename_i hm
    rw [if_pos hm]
    exact hbare
  · rename_i hm
    rw [if_neg hm]
    exact hbare

theorem Flanked.joinIncoming (hR : ∀ process, R process process) (hs : Flanked R g) (hg : g.Linked)
    (hn : index n < g.nodes.size) (h : g.joinIncoming n = .ok g') : Flanked R g' := by
  have hrerouted := rerouted_joinIncoming hg hn h
  have hgateway := hrerouted.process_eq g.nodes.next
  have howner := hrerouted.process_eq n
  rw [if_pos rfl] at hgateway
  rw [if_neg (Arena.ne_next_of_lt hn)] at howner
  refine hrerouted.flanked hs (process_leadInto _ _) (fun f hf => ⟨?_, ?_⟩)
    ⟨hgateway ▸ hR _, howner ▸ hR _⟩
  · rw [source_leadInto, hrerouted.process_eq, if_neg (Arena.ne_next_of_lt (hg.source f hf))]
  · rw [target_leadInto]
    split
    · rename_i htarget
      rw [htarget]
      exact hgateway
    · rw [hrerouted.process_eq, if_neg (Arena.ne_next_of_lt (hg.target f hf))]

theorem Flanked.splitOutgoing (hR : ∀ process, R process process) (hs : Flanked R g) (hg : g.Linked)
    (hn : index n < g.nodes.size) (h : g.splitOutgoing n = .ok g') : Flanked R g' := by
  have hrerouted := rerouted_splitOutgoing hg hn h
  have hgateway := hrerouted.process_eq g.nodes.next
  have howner := hrerouted.process_eq n
  rw [if_pos rfl] at hgateway
  rw [if_neg (Arena.ne_next_of_lt hn)] at howner
  refine hrerouted.flanked hs (process_leadOutOf _ _) (fun f hf => ⟨?_, ?_⟩)
    ⟨howner ▸ hR _, hgateway ▸ hR _⟩
  · rw [source_leadOutOf]
    split
    · rename_i hsource
      rw [hsource]
      exact hgateway
    · rw [hrerouted.process_eq, if_neg (Arena.ne_next_of_lt (hg.source f hf))]
  · rw [target_leadOutOf, hrerouted.process_eq, if_neg (Arena.ne_next_of_lt (hg.target f hf))]

theorem Flanked.normalize (hR : ∀ process, R process process) (hs : Flanked R g) (hg : g.Linked)
    (hd : g.Distinct) (h : g.normalize = .ok g') : Flanked R g' :=
  keeps_normalize (P := Flanked R) (fun _ _ _ hg hn _ _ hs h => hs.joinIncoming hR hg hn h)
    (fun _ _ _ hg hn _ _ hs h => hs.splitOutgoing hR hg hn h) hg hd hs h

end Flanked

/-- Gateway form leaves nodes other than gateways as they are, flows apart. -/
theorem Refines.bare_eq (h : Refines g g') (hm : (g'.node m).kind.isGateway = false) :
    (g'.node m).bare = (g.node m).bare := by
  rcases Nat.lt_or_ge (index m) g.nodes.size with hlt | hge
  · exact h.node m hlt
  · rcases Nat.lt_or_ge (index m) g'.nodes.size with hlt' | hge'
    · obtain ⟨_, hkind⟩ := h.gateway m hge hlt'
      rw [hkind] at hm
      cases hm
    · rw [node_eq_default hge, node_eq_default hge']

/-- What relates each event to its activity still does so in gateway form. -/
theorem Refines.event {R : String → String → Prop} (h : Refines g g')
    (hevent : ∀ m k trigger, (g.node m).kind = .boundaryEvent trigger (g.node k).id →
      (g.node k).kind.isActivity → R (g.node m).process (g.node k).process) {trigger : BoundaryTrigger}
    (hm : (g'.node m).kind = .boundaryEvent trigger (g'.node k).id) (hk : (g'.node k).kind.isActivity) :
    R (g'.node m).process (g'.node k).process := by
  have hbarem := h.bare_eq (m := m) (by rw [hm]; rfl)
  have hbarek : (g'.node k).bare = (g.node k).bare := h.bare_eq <| by
    cases hkind : (g'.node k).kind with
    | gateway => rw [hkind] at hk; cases hk
    | _ => rfl
  have hkindm : (g'.node m).kind = (g.node m).kind := congrArg (·.kind) hbarem
  have hidk : (g'.node k).id = (g.node k).id := congrArg (·.id) hbarek
  have hkindk : (g'.node k).kind = (g.node k).kind := congrArg (·.kind) hbarek
  have hprocessm : (g'.node m).process = (g.node m).process := congrArg (·.process) hbarem
  have hprocessk : (g'.node k).process = (g.node k).process := congrArg (·.process) hbarek
  rw [hprocessm, hprocessk]
  exact hevent m k trigger (by rw [← hkindm, hm, hidk]) (hkindk ▸ hk)

/-- A graph that is local is so after `normalize`. -/
theorem Local.normalize (hs : g.Local) (hg : g.Linked) (hd : g.Distinct) (h : g.normalize = .ok g') :
    g'.Local := by
  have hflanked : Flanked (fun process inner => inner = process) g' :=
    Flanked.normalize (fun _ => rfl) ⟨hs.source, hs.target⟩ hg hd h
  exact ⟨hflanked.source, hflanked.target, fun _ _ _ =>
    (refines_normalize h).event (R := fun inner process => inner = process) hs.event⟩

/-! ## Regions in gateway form -/

theorem SealedBy.normalize (hs : g.SealedBy inside) (hg : g.Linked) (hd : g.Distinct)
    (h : g.normalize = .ok g') : g'.SealedBy inside := by
  have hflanked : Flanked (fun process inner => inside process ↔ inside inner) g' :=
    Flanked.normalize (fun _ => Iff.rfl) ⟨hs.source, hs.target⟩ hg hd h
  exact ⟨hflanked.source, hflanked.target, fun _ _ _ =>
    (refines_normalize h).event (R := fun inner process => inside inner ↔ inside process) hs.event⟩

/-- Gateway form has the same subprocesses. -/
theorem Refines.isSubprocess_iff (h : Refines g g') (m : NodeId) :
    (g'.node m).kind.isSubprocess ↔ (g.node m).kind.isSubprocess := by
  rcases Nat.lt_or_ge (index m) g.nodes.size with hlt | hge
  · have hkind : (g'.node m).kind = (g.node m).kind := congrArg (·.kind) (h.node m hlt)
    rw [hkind]
  · rw [node_eq_default hge]
    constructor
    · intro hm
      obtain ⟨_, hkind⟩ := h.gateway m hge (lt_of_isSubprocess hm)
      rw [hkind] at hm
      cases hm
    · intro hm
      cases hm

/-- Gateway form nests its subprocesses in the same way. -/
theorem Enclosure.refined (hr : g.Enclosure n inside) (h : Refines g g') : g'.Enclosure n inside := by
  have hsub := h.isSubprocess_iff
  have hbare : ∀ m, (g.node m).kind.isSubprocess → (g'.node m).bare = (g.node m).bare := fun m hm =>
    h.node m (lt_of_isSubprocess hm)
  have hid : ∀ m, (g.node m).kind.isSubprocess → (g'.node m).id = (g.node m).id := fun m hm =>
    congrArg (·.id) (hbare m hm)
  have hprocess : ∀ m, (g.node m).kind.isSubprocess → (g'.node m).process = (g.node m).process :=
    fun m hm => congrArg (·.process) (hbare m hm)
  have hdepth : ∀ m, (g.node m).kind.isSubprocess → g'.depth m = g.depth m := fun m hm =>
    congrArg (fun x => x.kind.depth?.getD 0) (hbare m hm)
  have hn := hr.subprocess
  -- each part is about subprocesses, and these are as they were
  refine {
    subprocess := (hsub n).2 hn
    self := ?self
    outer := ?outer
    root := ?root
    down := fun m hm => ?down
    up := fun m hm => ?up
    deeper := fun m hm => ?deeper
    held := fun process hin => ?held
    layered := fun m k hm hk => ?layered }
  case self =>
    rw [hid n hn]
    exact hr.self
  case outer =>
    rw [hprocess n hn]
    exact hr.outer
  case root =>
    rw [h.processId]
    exact hr.root
  case down =>
    have hm := (hsub m).1 hm
    rw [hprocess m hm, hid m hm]
    exact hr.down m hm
  case up =>
    have hm := (hsub m).1 hm
    rw [hid m hm, hprocess m hm]
    exact hr.up m hm
  case deeper =>
    have hm := (hsub m).1 hm
    rw [hid m hm, hdepth n hn, hdepth m hm]
    exact hr.deeper m hm
  case held =>
    obtain ⟨m, hm, hm'⟩ := hr.held process hin
    exact ⟨m, (hsub m).2 hm, (hid m hm).trans hm'⟩
  case layered =>
    have hm := (hsub m).1 hm
    have hk := (hsub k).1 hk
    rw [hprocess m hm, hid k hk, hdepth k hk, hdepth m hm]
    exact hr.layered m k hm hk

/-- A region of a graph is one of what `normalize` makes of it. -/
theorem Region.normalize (hr : g.Region n inside) (hg : g.Linked) (hd : g.Distinct)
    (h : g.normalize = .ok g') : g'.Region n inside :=
  ⟨hr.toEnclosure.refined (refines_normalize h), hr.confined.normalize hg hd h⟩

end ProcessGraph

end ProcessNet
