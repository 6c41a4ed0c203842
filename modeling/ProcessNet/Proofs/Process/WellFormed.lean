/-
Declarations that form a graph. They are told without any order in which they are checked: what `build`
accepts is well formed, and what is well formed it accepts.
-/
import ProcessNet.Proofs.Process.Build

namespace ProcessNet

namespace NodeKind

/-- The kind with its depth replaced, if it is that of a subprocess. -/
def atDepth (kind : NodeKind) (depth : Nat) : NodeKind :=
  match kind with
  | .subprocess _ => .subprocess depth
  | kind => kind

variable {kind : NodeKind} {depth : Nat}

@[simp] theorem isSubprocess_atDepth : (kind.atDepth depth).isSubprocess = kind.isSubprocess := by
  cases kind <;> rfl

@[simp] theorem isActivity_atDepth : (kind.atDepth depth).isActivity = kind.isActivity := by
  cases kind <;> rfl

theorem depth?_atDepth (h : kind.isSubprocess) : (kind.atDepth depth).depth? = some depth := by
  cases kind <;> first | rfl | cases h

theorem atDepth_eq_boundaryEvent {trigger : BoundaryTrigger} {activity : String} :
    kind.atDepth depth = .boundaryEvent trigger activity ↔ kind = .boundaryEvent trigger activity := by
  cases kind <;> simp [atDepth]

theorem atDepth_eq_subprocess {k : Nat} :
    kind.atDepth depth = .subprocess k ↔ kind.isSubprocess ∧ depth = k := by
  cases kind <;> simp [atDepth, isSubprocess]

theorem atDepth_congr {depth' : Nat} (h : kind.isSubprocess → depth = depth') :
    kind.atDepth depth = kind.atDepth depth' := by
  cases kind with
  | subprocess k => rw [h rfl]
  | _ => rfl

theorem atDepth_eq (h : ∀ k, kind = .subprocess k → depth = k) : kind.atDepth depth = kind := by
  cases kind with
  | subprocess k => rw [atDepth, h k rfl]
  | _ => rfl

end NodeKind

namespace ProcessDeclaration

open Identifier

variable {d d' : ProcessDeclaration} {g g' : ProcessGraph} {id : String} {depth : Nat}

/-! ## What fits together -/

theorem isProcess_iff : d.isProcess id ↔
    id = d.processId ∨ ∃ n ∈ d.nodes, n.id = id ∧ n.kind.isSubprocess := by
  simp [isProcess, subprocess?]

/-- Declarations fit together. -/
structure WellFormed (d : ProcessDeclaration) : Prop where
  ids : (d.nodes.map (·.id)).Nodup
  root : ∀ n ∈ d.nodes, n.id ≠ d.processId
  apart : ∀ n ∈ d.nodes, n.process ≠ n.id
  process : ∀ n ∈ d.nodes, d.isProcess n.process
  boundary : ∀ n ∈ d.nodes, ∀ trigger activity, n.kind = .boundaryEvent trigger activity →
    ∃ m ∈ d.nodes, m.id = activity ∧ m.kind.isActivity
  nested : ∀ n ∈ d.nodes, n.kind.isSubprocess → ∃ depth, d.Nested n.id depth
  flowIds : (d.flows.map (·.id)).Nodup
  source : ∀ f ∈ d.flows, ∃ n ∈ d.nodes, n.id = f.source
  target : ∀ f ∈ d.flows, ∃ n ∈ d.nodes, n.id = f.target
  flowProcess : ∀ f ∈ d.flows, ∀ process ∈ f.process, d.isProcess process

/-! ## What is accepted -/

theorem forM_eq_ok_iff {ε α : Type} {f : α → Except ε PUnit} {l : List α} :
    l.forM f = .ok ⟨⟩ ↔ ∀ x ∈ l, f x = .ok ⟨⟩ := by
  induction l with
  | nil => exact ⟨fun _ _ hx => absurd hx List.not_mem_nil, fun _ => rfl⟩
  | cons x l ih =>
    rw [List.forall_mem_cons, ← ih]
    change (f x >>= fun _ => l.forM f) = _ ↔ _
    cases f x with
    | error e => exact ⟨nofun, nofun⟩
    | ok u => exact ⟨fun h => ⟨rfl, h⟩, fun h => h.2⟩

theorem find?_any_iff (hids : (d.nodes.map (·.id)).Nodup) {p : NodeDeclaration → Bool} :
    (d.find? id).any p ↔ ∃ n ∈ d.nodes, n.id = id ∧ p n := by
  have hsame : SameNodes d d := ⟨rfl, .refl _, hids⟩
  constructor
  · intro h
    cases hfind : d.find? id with
    | none => rw [hfind] at h; cases h
    | some n =>
      rw [hfind] at h
      exact ⟨n, List.mem_of_find?_eq_some hfind, by simpa using List.find?_some hfind, h⟩
  · rintro ⟨n, hmem, rfl, hp⟩
    cases hfind : d.find? n.id with
    | none => exact absurd (decide_eq_true rfl) (List.find?_eq_none.1 hfind n hmem)
    | some m =>
      have hid : m.id = n.id := by simpa using List.find?_some hfind
      rw [hsame.eq_of_id (List.mem_of_find?_eq_some hfind) hmem hid]
      exact hp

theorem checkNode_eq_ok_iff (hids : (d.nodes.map (·.id)).Nodup) {n : NodeDeclaration} :
    d.checkNode n = .ok () ↔ d.isProcess n.process ∧ ∀ trigger activity,
      n.kind = .boundaryEvent trigger activity → ∃ m ∈ d.nodes, m.id = activity ∧ m.kind.isActivity := by
  rw [checkNode]
  cases hprocess : d.isProcess n.process with
  | false => exact ⟨nofun, nofun⟩
  | true =>
    rw [Bool.not_true, if_neg Bool.false_ne_true]
    cases hkind : n.kind with
    | boundaryEvent trigger activity =>
      have hactivity : (d.find? activity).any (·.kind.isActivity) ↔
          ∃ m ∈ d.nodes, m.id = activity ∧ m.kind.isActivity := find?_any_iff hids
      by_cases hany : (d.find? activity).any (·.kind.isActivity)
      · refine ⟨fun _ => ⟨rfl, ?_⟩, fun _ => if_pos hany⟩
        rintro _ _ ⟨⟩
        exact hactivity.1 hany
      · simp only [if_neg hany]
        exact ⟨nofun, fun h => absurd (hactivity.2 (h.2 _ _ rfl)) hany⟩
    | _ => exact ⟨fun _ => ⟨rfl, nofun⟩, fun _ => rfl⟩

theorem place_eq_ok_iff {n : NodeDeclaration} {x : Node} : d.place n = .ok x ↔
    ∃ depth, (n.kind.isSubprocess → d.depth? n.id = some depth) ∧
      x = { id := n.id, name := n.name, kind := n.kind.atDepth depth, process := n.process } := by
  unfold place
  cases hkind : n.kind with
  | subprocess k =>
    cases hdepth : d.depth? n.id with
    | none => simp [NodeKind.isSubprocess]
    | some depth => simp [NodeKind.isSubprocess, NodeKind.atDepth, eq_comm]
  | _ => simp [NodeKind.isSubprocess, NodeKind.atDepth, eq_comm]

/-- `addFlow` accepts flows only with processes of their own that are declared. -/
theorem flowProcess_of_addFlows {fs : List FlowDeclaration} (h : fs.foldlM d.addFlow g = .ok g') :
    ∀ f ∈ fs, ∀ process ∈ f.process, d.isProcess process := by
  induction fs generalizing g with
  | nil => exact fun _ hf => absurd hf List.not_mem_nil
  | cons f fs ih =>
    rw [List.foldlM_cons] at h
    cases hadd : d.addFlow g f with
    | error e => rw [hadd] at h; cases h
    | ok g₁ =>
      rw [hadd] at h
      obtain ⟨source, _, _, _, _, hprocess, _⟩ := addFlow_eq_ok hadd
      refine List.forall_mem_cons.2 ⟨fun process hf => ?_, ih h⟩
      rwa [Option.mem_def.1 hf] at hprocess

/-- The nodes of the graph are the declared ones. -/
theorem Declares.exists_declared {l : List FlowDeclaration} (h : Declares d l g) {n : NodeId}
    (hn : index n < g.nodes.size) : ∃ x ∈ d.nodes, d.place x = .ok (g.node n).bare :=
  ⟨_, List.getElem_mem (h.nodeCount ▸ hn), h.node _ _ (List.getElem?_eq_getElem (h.nodeCount ▸ hn))⟩

theorem Declares.exists_node {l : List FlowDeclaration} (h : Declares d l g) {x : NodeDeclaration}
    (hx : x ∈ d.nodes) :
    ∃ n, index n < g.nodes.size ∧ (g.node n).id = x.id ∧ (g.node n).process = x.process := by
  obtain ⟨i, hi⟩ := List.mem_iff_getElem?.1 hx
  obtain ⟨hid, hprocess, -⟩ := place_eq_ok (h.node i x hi)
  have hlt := (List.getElem?_eq_some_iff.1 hi).1
  exact ⟨⟨i⟩, h.nodeCount.symm ▸ hlt, hid, hprocess⟩

theorem Declares.exists_flow {l : List FlowDeclaration} (h : Declares d l g) {f : FlowDeclaration}
    (hf : f ∈ l) : ∃ k, index k < g.flows.size ∧ g.described (g.flow k) = d.completed f := by
  obtain ⟨i, hi⟩ := List.mem_iff_getElem?.1 hf
  have hlt := (List.getElem?_eq_some_iff.1 hi).1
  exact ⟨⟨i⟩, h.flowCount.symm ▸ hlt, h.flow i f hi⟩

theorem nodup_of_getElem? {α β : Type} {l : List α} {key : α → β}
    (h : ∀ (i j : Nat) (a b : α), l[i]? = some a → l[j]? = some b → key a = key b → i = j) :
    (l.map key).Nodup := by
  rw [List.nodup_iff_injective_getElem]
  rintro ⟨i, hi⟩ ⟨j, hj⟩ he
  rw [List.length_map] at hi hj
  simp only [List.getElem_map] at he
  exact Fin.ext (h i j _ _ (List.getElem?_eq_getElem hi) (List.getElem?_eq_getElem hj) he)

theorem Declares.nodup_ids {l : List FlowDeclaration} (h : Declares d l g) : (l.map (·.id)).Nodup := by
  have hflow : ∀ {i : Nat} {f : FlowDeclaration}, l[i]? = some f →
      index (⟨i⟩ : FlowId) < g.flows.size ∧ (g.flow ⟨i⟩).id = f.id := fun hi =>
    ⟨h.flowCount.symm ▸ (List.getElem?_eq_some_iff.1 hi).1, congrArg (·.id) (h.flow _ _ hi)⟩
  refine nodup_of_getElem? fun i j a b hi hj hid => ?_
  obtain ⟨hlti, hidi⟩ := hflow hi
  obtain ⟨hltj, hidj⟩ := hflow hj
  exact congrArg FlowId.number
    (h.distinct.flow _ _ hlti hltj (hidi.trans (hid.trans hidj.symm)))

theorem wellFormed_of_build (h : d.build = .ok g) : d.WellFormed := by
  obtain ⟨hids, hnodes, nodes, hplace, hflows⟩ := build_eq_ok_iff.1 h
  obtain ⟨hnodup, hd⟩ := declares_of_build h
  obtain ⟨-, hall⟩ := checkIds_eq_ok_iff.1 hids
  have hcheck := fun n hn => (checkNode_eq_ok_iff hnodup).1 (forM_eq_ok_iff.1 hnodes n hn)
  have hend : ∀ {n : NodeId}, index n < g.nodes.size → ∃ x ∈ d.nodes, x.id = (g.node n).id := by
    intro n hn
    obtain ⟨x, hx, hplace⟩ := hd.exists_declared hn
    exact ⟨x, hx, (place_eq_ok hplace).1.symm⟩
  refine {
    ids := hnodup
    root := fun n hn => (hall n hn).2.1
    apart := fun n hn => (hall n hn).2.2
    process := fun n hn => (hcheck n hn).1
    boundary := fun n hn => (hcheck n hn).2
    nested := fun n hn hkind => ?_
    flowIds := hd.nodup_ids
    source := fun f hf => ?_
    target := fun f hf => ?_
    flowProcess := flowProcess_of_addFlows hflows }
  · obtain ⟨i, hi⟩ := List.mem_iff_getElem?.1 hn
    obtain ⟨depth, hdepth, -⟩ := place_eq_ok_iff.1 (hd.node i n hi)
    exact ⟨depth, nested_of_depthWithin? (hdepth hkind)⟩
  · obtain ⟨k, hk, hdescribed⟩ := hd.exists_flow hf
    obtain ⟨x, hx, hid⟩ := hend (hd.linked.source k hk)
    exact ⟨x, hx, hid.trans (congrArg (·.source) hdescribed)⟩
  · obtain ⟨k, hk, hdescribed⟩ := hd.exists_flow hf
    obtain ⟨x, hx, hid⟩ := hend (hd.linked.target k hk)
    exact ⟨x, hx, hid.trans (congrArg (·.target) hdescribed)⟩

/-- `build` lets nodes be as deep as they are nested. -/
theorem exists_declared_of_build (h : d.build = .ok g) {n : NodeId} (hn : index n < g.nodes.size) :
    ∃ x ∈ d.nodes, (g.node n).id = x.id ∧ (g.node n).process = x.process ∧ ∃ depth,
      (g.node n).kind = x.kind.atDepth depth ∧ (x.kind.isSubprocess → d.Nested x.id depth) := by
  obtain ⟨-, hd⟩ := declares_of_build h
  obtain ⟨x, hx, hplace⟩ := hd.exists_declared hn
  obtain ⟨depth, hdepth, hbare⟩ := place_eq_ok_iff.1 hplace
  exact ⟨x, hx, congrArg (·.id) hbare, congrArg (·.process) hbare, depth,
    congrArg (·.kind) hbare, fun hkind => nested_of_depthWithin? (hdepth hkind)⟩

/-! ## What is well formed is accepted -/

theorem WellFormed.exists_place (h : d.WellFormed) {n : NodeDeclaration} (hn : n ∈ d.nodes) :
    ∃ x, d.place n = .ok x := by
  by_cases hkind : n.kind.isSubprocess
  · obtain ⟨depth, hdepth⟩ := h.nested n hn hkind
    exact ⟨_, place_eq_ok_iff.2 ⟨depth, fun _ => (depth?_eq_some_iff h.ids h.root).2 hdepth, rfl⟩⟩
  · exact ⟨_, place_eq_ok_iff.2 ⟨0, fun hn => absurd hn hkind, rfl⟩⟩

theorem exists_mapM {ε α β : Type} {f : α → Except ε β} {l : List α}
    (h : ∀ a ∈ l, ∃ x, f a = .ok x) : ∃ xs, l.mapM f = .ok xs := by
  induction l with
  | nil => exact ⟨[], rfl⟩
  | cons a l ih =>
    obtain ⟨⟨x, hx⟩, hl⟩ := List.forall_mem_cons.1 h
    obtain ⟨xs, hxs⟩ := ih hl
    exact ⟨x :: xs, by rw [List.mapM_cons, hx, hxs]; rfl⟩

/-- `addFlow` finds the two nodes and the process of a flow whose id is new. -/
theorem WellFormed.exists_addFlow (h : d.WellFormed) {l : List FlowDeclaration} (hg : Declares d l g)
    {f : FlowDeclaration} (hf : f ∈ d.flows) (hnew : f.id ∉ l.map (·.id)) :
    ∃ g', d.addFlow g f = .ok g' := by
  have hfresh : ¬ (g.flowById? f.id).isSome := by
    rw [ProcessGraph.isSome_flowById?_iff]
    rintro ⟨k, hk, hid⟩
    have hlt : index k < l.length := hg.flowCount ▸ hk
    have hdescribed := congrArg (·.id) (hg.flow _ _ (List.getElem?_eq_getElem hlt))
    exact hnew (List.mem_map.2 ⟨_, List.getElem_mem hlt, hdescribed.symm.trans hid⟩)
  have hfound : ∀ {id : String}, (∃ n ∈ d.nodes, n.id = id) → ∃ n, g.nodeById? id = some n := by
    rintro id ⟨x, hx, rfl⟩
    obtain ⟨n, hn, hid, -⟩ := hg.exists_node hx
    exact Option.isSome_iff_exists.1 (ProcessGraph.isSome_nodeById?_iff.2 ⟨n, hn, hid⟩)
  obtain ⟨source, hsource⟩ := hfound (h.source f hf)
  obtain ⟨target, htarget⟩ := hfound (h.target f hf)
  have hprocess : d.isProcess (f.process.getD (g.node source).process) := by
    cases hp : f.process with
    | some process => exact h.flowProcess f hf process hp
    | none =>
      obtain ⟨x, hx, hplace⟩ := hg.exists_declared (nodeById?_eq_some hsource).1
      have hsame : (g.node source).process = x.process := (place_eq_ok hplace).2.1
      exact hsame ▸ h.process x hx
  refine ⟨g.withFlow {
    id := f.id, name := f.name, kind := f.kind, source, target
    process := f.process.getD (g.node source).process }, ?_⟩
  unfold ProcessDeclaration.addFlow ProcessGraph.insertFlow
  simp only [hsource, htarget, if_neg hfresh, hprocess, Bool.not_true, Bool.false_eq_true, if_false]
  rfl

theorem WellFormed.exists_addFlows (h : d.WellFormed) {l fs : List FlowDeclaration}
    (hg : Declares d l g) (hfs : d.flows = l ++ fs) : ∃ g', fs.foldlM d.addFlow g = .ok g' := by
  induction fs generalizing g l with
  | nil => exact ⟨g, rfl⟩
  | cons f fs ih =>
    have hmem : f ∈ d.flows := hfs ▸ List.mem_append_right l List.mem_cons_self
    have hnodup := h.flowIds
    rw [hfs, List.map_append, List.nodup_append] at hnodup
    have hnew : f.id ∉ l.map (·.id) := fun hl => hnodup.2.2 _ hl f.id (by simp) rfl
    obtain ⟨g₁, hadd⟩ := h.exists_addFlow hg hmem hnew
    obtain ⟨g', hrest⟩ := ih (hg.addFlow h.ids hadd) (by rw [hfs, List.append_assoc]; rfl)
    exact ⟨g', by rw [List.foldlM_cons, hadd]; exact hrest⟩

theorem WellFormed.exists_build (h : d.WellFormed) : ∃ g, d.build = .ok g := by
  obtain ⟨nodes, hnodes⟩ := exists_mapM fun n hn => h.exists_place hn
  obtain ⟨hlen, hall⟩ := getElem?_of_mapM_eq_ok hnodes
  obtain ⟨g, hg⟩ := h.exists_addFlows (declares_nodes h.ids hlen hall) (List.nil_append _).symm
  refine ⟨g, build_eq_ok_iff.2 ⟨checkIds_eq_ok_iff.2 ⟨h.ids, fun n hn => ?_⟩,
    forM_eq_ok_iff.2 fun n hn => ?_, nodes, hnodes, hg⟩⟩
  · exact ⟨List.not_mem_nil, h.root n hn, h.apart n hn⟩
  · exact (checkNode_eq_ok_iff h.ids).2 ⟨h.process n hn, h.boundary n hn⟩

end ProcessDeclaration

end ProcessNet
