/-
What declarations build. A graph that is built lists its flows at their ends, its ids differ, and its
nodes and flows are the declared ones in their order. So declarations in another order build a graph
that differs only in how nodes and flows are numbered.
-/
import Mathlib.Logic.Equiv.Basic
import ProcessNet.Proofs.Process.Depth
import ProcessNet.Proofs.Process.Renaming

namespace ProcessNet

open Identifier

namespace ProcessDeclaration

variable {d d' : ProcessDeclaration}

/-! ## Declared nodes -/

/-- `checkIds` passes if ids are new and differ from each other and from that of the process, and if no
node contains itself. -/
theorem checkIds_eq_ok_iff {seen : List String} {l : List NodeDeclaration} :
    d.checkIds seen l = .ok () ↔ (l.map (·.id)).Nodup ∧
      ∀ n ∈ l, n.id ∉ seen ∧ n.id ≠ d.processId ∧ n.process ≠ n.id := by
  induction l generalizing seen with
  | nil => exact ⟨fun _ => ⟨List.nodup_nil, fun _ hn => absurd hn List.not_mem_nil⟩, fun _ => rfl⟩
  | cons n l ih =>
    rw [checkIds]
    by_cases hold : n.id = d.processId ∨ n.id ∈ seen
    · rw [if_pos hold]
      refine ⟨nofun, fun ⟨_, h⟩ => ?_⟩
      obtain ⟨hseen, hroot, -⟩ := h n List.mem_cons_self
      exact absurd hold (not_or.2 ⟨hroot, hseen⟩)
    rw [if_neg hold]
    by_cases hself : n.process = n.id
    · rw [if_pos hself]
      refine ⟨nofun, fun ⟨_, h⟩ => ?_⟩
      exact absurd hself (h n List.mem_cons_self).2.2
    rw [if_neg hself, ih, List.map_cons, List.nodup_cons]
    obtain ⟨hroot, hseen⟩ := not_or.1 hold
    constructor
    · rintro ⟨hnodup, hall⟩
      refine ⟨⟨fun hmem => ?_, hnodup⟩, List.forall_mem_cons.2 ⟨⟨hseen, hroot, hself⟩, fun m hm => ?_⟩⟩
      · obtain ⟨m, hm, hid⟩ := List.mem_map.1 hmem
        exact (hall m hm).1 (hid ▸ List.mem_cons_self)
      · exact ⟨fun hmem => (hall m hm).1 (List.mem_cons_of_mem _ hmem), (hall m hm).2⟩
    · rintro ⟨⟨hnew, hnodup⟩, hall⟩
      obtain ⟨-, hall⟩ := List.forall_mem_cons.1 hall
      refine ⟨hnodup, fun m hm => ⟨fun hmem => ?_, (hall m hm).2⟩⟩
      rcases List.mem_cons.1 hmem with hid | hmem
      · exact hnew (hid ▸ List.mem_map_of_mem hm)
      · exact (hall m hm).1 hmem

theorem mem_subprocessIds {id : String} :
    id ∈ d.subprocessIds ↔ ∃ n ∈ d.nodes, n.kind.isSubprocess ∧ n.id = id := by
  rw [subprocessIds, List.mem_map]
  exact exists_congr fun n => by rw [List.mem_filter, and_assoc]

theorem mapM_eq_map {ε α β : Type} {f : α → Except ε β} {h : α → β} {l : List α}
    (hall : ∀ a ∈ l, f a = .ok (h a)) : l.mapM f = .ok (l.map h) := by
  induction l with
  | nil => rfl
  | cons a l ih =>
    obtain ⟨ha, hl⟩ := List.forall_mem_cons.1 hall
    rw [List.mapM_cons, ha, ih hl]
    rfl

theorem getElem?_of_mapM_eq_ok {ε α β : Type} {f : α → Except ε β} {l : List α} {xs : List β}
    (h : l.mapM f = .ok xs) :
    xs.length = l.length ∧
      ∀ (i : Nat) (a : α), l[i]? = some a → ∃ x, xs[i]? = some x ∧ f a = .ok x := by
  induction l generalizing xs with
  | nil =>
    rw [List.mapM_nil] at h
    cases h
    exact ⟨rfl, fun i a ha => by simp at ha⟩
  | cons b l ih =>
    rw [List.mapM_cons] at h
    cases hb : f b with
    | error e => rw [hb] at h; cases h
    | ok y =>
      cases hl : l.mapM f with
      | error e => rw [hb, hl] at h; cases h
      | ok ys =>
        rw [hb, hl] at h
        cases h
        obtain ⟨hlen, hall⟩ := ih hl
        refine ⟨by rw [List.length_cons, List.length_cons, hlen], fun i a ha => ?_⟩
        cases i with
        | zero =>
          cases ha
          exact ⟨y, rfl, hb⟩
        | succ i => exact hall i a ha

/-- `nestingDepths` succeeds if and only if each declared node can be placed, and then the nodes come
with the depths that they are placed at. -/
theorem exists_nestingDepths_iff (hids : d.checkIds [] d.nodes = .ok ()) {order : List String}
    (horder : order.Perm d.subprocessIds) {nodes : List Node} :
    (∃ depths, d.nestingDepths order = .ok depths ∧ d.nodes.map (·.node depths) = nodes) ↔
      d.nodes.mapM d.place = .ok nodes := by
  obtain ⟨hnodup, hall⟩ := checkIds_eq_ok_iff.1 hids
  have hroot : ∀ n ∈ d.nodes, n.id ≠ d.processId := fun n hn => (hall n hn).2.1
  have hmem : ∀ id, id ∈ order ↔ ∃ n ∈ d.nodes, n.kind.isSubprocess ∧ n.id = id := fun id =>
    horder.mem_iff.trans mem_subprocessIds
  have hplaced : ∀ depths, d.nestingDepths order = .ok depths →
      d.nodes.mapM d.place = .ok (d.nodes.map (·.node depths)) := by
    refine fun depths hdepths => mapM_eq_map (place_of_nestingDepths hnodup hroot
      (fun n hn hkind => (hmem n.id).2 ⟨n, hn, hkind, rfl⟩) (fun id hid => ?_) hdepths)
    obtain ⟨n, hn, -, rfl⟩ := (hmem id).1 hid
    exact hroot n hn
  constructor
  · rintro ⟨depths, hdepths, rfl⟩
    exact hplaced depths hdepths
  · intro hnodes
    have hnested : ∀ id ∈ order, ∃ depth, d.Nested id depth := by
      intro id hid
      obtain ⟨n, hn, hkind, rfl⟩ := (hmem id).1 hid
      obtain ⟨i, hi⟩ := List.mem_iff_getElem?.1 hn
      obtain ⟨x, -, hx⟩ := (getElem?_of_mapM_eq_ok hnodes).2 i n hi
      exact nested_of_place hkind hx
    obtain ⟨depths, hdepths⟩ := exists_foldlM_noteDepths hnodup hroot [] hnested
    exact ⟨depths, hdepths, Except.ok.inj ((hplaced depths hdepths).symm.trans hnodes)⟩

/-- The steps of `buildIn`, in whatever order the subprocesses are looked at. -/
theorem buildIn_eq_ok_iff {g : ProcessGraph} {order : List String}
    (horder : order.Perm d.subprocessIds) : d.buildIn order = .ok g ↔
      d.checkIds [] d.nodes = .ok () ∧ d.nodes.forM d.checkNode = .ok () ∧
        ∃ nodes, d.nodes.mapM d.place = .ok nodes ∧
          d.flows.foldlM d.addFlow ⟨d.processId, d.name, ⟨nodes⟩, {}⟩ = .ok g := by
  unfold buildIn
  cases hids : d.checkIds [] d.nodes with
  | error e => exact ⟨nofun, fun h => nomatch h.1⟩
  | ok u =>
    have hplaced := @exists_nestingDepths_iff d hids order horder
    cases d.nodes.forM d.checkNode with
    | error e => exact ⟨nofun, fun h => nomatch h.2.1⟩
    | ok u =>
      cases hdepths : d.nestingDepths order with
      | error e =>
        refine ⟨nofun, fun ⟨_, _, nodes, hnodes, _⟩ => ?_⟩
        obtain ⟨depths, hok, -⟩ := hplaced.2 hnodes
        cases hdepths.symm.trans hok
      | ok depths =>
        have hnodes := hplaced.1 ⟨depths, hdepths, rfl⟩
        refine ⟨fun h => ⟨rfl, rfl, _, hnodes, h⟩, fun ⟨_, _, nodes, hmap, h⟩ => ?_⟩
        cases hnodes.symm.trans hmap
        exact h

/-- The steps of `build`. -/
theorem build_eq_ok_iff {g : ProcessGraph} : d.build = .ok g ↔
    d.checkIds [] d.nodes = .ok () ∧ d.nodes.forM d.checkNode = .ok () ∧
      ∃ nodes, d.nodes.mapM d.place = .ok nodes ∧
        d.flows.foldlM d.addFlow ⟨d.processId, d.name, ⟨nodes⟩, {}⟩ = .ok g :=
  buildIn_eq_ok_iff (.refl _)

/-- `find?` gets what at most one member fulfils in any order. -/
theorem find?_eq_of_perm {α : Type} {l l' : List α} {p : α → Bool} (h : l.Perm l')
    (huniq : ∀ x ∈ l, ∀ y ∈ l, p x → p y → x = y) : l'.find? p = l.find? p := by
  cases hl : l.find? p with
  | none =>
    rw [List.find?_eq_none] at hl ⊢
    exact fun x hx => hl x (h.mem_iff.2 hx)
  | some x =>
    have hx := List.mem_of_find?_eq_some hl
    have hpx := List.find?_some hl
    cases hl' : l'.find? p with
    | none => exact absurd hpx (List.find?_eq_none.1 hl' x (h.mem_iff.1 hx))
    | some y =>
      have hy := h.mem_iff.2 (List.mem_of_find?_eq_some hl')
      rw [huniq x hx y hy hpx (List.find?_some hl')]

/-- The same declarations of nodes, in any order. -/
structure SameNodes (d d' : ProcessDeclaration) : Prop where
  processId : d'.processId = d.processId
  nodes : d.nodes.Perm d'.nodes
  nodup : (d.nodes.map (·.id)).Nodup

theorem SameNodes.eq_of_id (h : SameNodes d d') {x y : NodeDeclaration} (hx : x ∈ d.nodes)
    (hy : y ∈ d.nodes) (hid : x.id = y.id) : x = y :=
  List.inj_on_of_nodup_map h.nodup hx hy hid

theorem SameNodes.find?_eq (h : SameNodes d d') (id : String) : d'.find? id = d.find? id :=
  find?_eq_of_perm h.nodes fun _ hx _ hy hpx hpy => h.eq_of_id hx hy
    ((of_decide_eq_true hpx).trans (of_decide_eq_true hpy).symm)

theorem SameNodes.subprocess?_eq (h : SameNodes d d') (id : String) :
    d'.subprocess? id = d.subprocess? id := by
  refine find?_eq_of_perm h.nodes fun x hx y hy hpx hpy => h.eq_of_id hx hy ?_
  rw [Bool.and_eq_true, decide_eq_true_eq] at hpx hpy
  exact hpx.1.trans hpy.1.symm

theorem SameNodes.depthWithin?_eq (h : SameNodes d d') (fuel : Nat) (id : String) :
    d'.depthWithin? fuel id = d.depthWithin? fuel id := by
  induction fuel generalizing id with
  | zero => simp only [depthWithin?, h.processId]
  | succ fuel ih => simp only [depthWithin?, h.processId, h.subprocess?_eq, ih]

theorem SameNodes.place_eq (h : SameNodes d d') (n : NodeDeclaration) : d'.place n = d.place n := by
  simp only [place, depth?, h.depthWithin?_eq, h.nodes.length_eq]

theorem place_eq_ok {n : NodeDeclaration} {x : Node} (h : d.place n = .ok x) :
    x.id = n.id ∧ x.process = n.process ∧ x.bare = x := by
  unfold place at h
  split at h
  · split at h
    · cases h
      exact ⟨rfl, rfl, rfl⟩
    · cases h
  · cases h
    exact ⟨rfl, rfl, rfl⟩

/-! ## Declared flows -/

/-- The process of a declared node. -/
def processOf (d : ProcessDeclaration) (id : String) : String := ((d.find? id).map (·.process)).getD ""

theorem processOf_of_mem (hnodup : (d.nodes.map (·.id)).Nodup) {n : NodeDeclaration}
    (hn : n ∈ d.nodes) : d.processOf n.id = n.process := by
  have hsame : SameNodes d d := ⟨rfl, .refl _, hnodup⟩
  rw [processOf, find?]
  cases hfind : d.nodes.find? (·.id = n.id) with
  | none => exact absurd (decide_eq_true rfl) (List.find?_eq_none.1 hfind n hn)
  | some m =>
    have hid : m.id = n.id := by simpa using List.find?_some hfind
    rw [hsame.eq_of_id (List.mem_of_find?_eq_some hfind) hn hid]
    rfl

/-- The declaration of a flow with its process filled in. -/
def completed (d : ProcessDeclaration) (f : FlowDeclaration) : FlowDeclaration :=
  { f with process := some (f.process.getD (d.processOf f.source)) }

theorem SameNodes.completed_eq (h : SameNodes d d') (f : FlowDeclaration) :
    d'.completed f = d.completed f := by
  rw [completed, completed, processOf, processOf, h.find?_eq]

end ProcessDeclaration

namespace ProcessGraph

/-- How a flow of a graph would be declared. -/
def described (g : ProcessGraph) (x : Flow) : FlowDeclaration where
  id := x.id
  name := x.name
  kind := x.kind
  source := (g.node x.source).id
  target := (g.node x.target).id
  process := some x.process

end ProcessGraph

namespace ProcessDeclaration

open ProcessGraph

/-- The graph `g` has the declared nodes and the flows of `l`. -/
structure Declares (d : ProcessDeclaration) (l : List FlowDeclaration) (g : ProcessGraph) : Prop where
  linked : g.Linked
  distinct : g.Distinct
  processId : g.processId = d.processId
  name : g.name = d.name
  nodeCount : g.nodes.size = d.nodes.length
  node : ∀ i n, d.nodes[i]? = some n → d.place n = .ok (g.node ⟨i⟩).bare
  flowCount : g.flows.size = l.length
  flow : ∀ i f, l[i]? = some f → g.described (g.flow ⟨i⟩) = d.completed f

variable {d d' : ProcessDeclaration} {l : List FlowDeclaration} {g g' : ProcessGraph}
  {f : FlowDeclaration} {n : NodeId}

theorem nodeById?_eq_some {id : String} (h : g.nodeById? id = some n) :
    index n < g.nodes.size ∧ (g.node n).id = id := by
  obtain ⟨k, hk, rfl⟩ := Option.map_eq_some_iff.1 h
  obtain ⟨hlt, hid, -⟩ := List.findIdx?_eq_some_iff_getElem.1 hk
  refine ⟨hlt, ?_⟩
  rw [node_mk hlt]
  exact of_decide_eq_true hid

theorem Declares.processOf_eq (h : Declares d l g) (hnodup : (d.nodes.map (·.id)).Nodup)
    (hn : index n < g.nodes.size) : d.processOf (g.node n).id = (g.node n).process := by
  obtain ⟨x, hx⟩ : ∃ x, d.nodes[index n]? = some x :=
    ⟨_, List.getElem?_eq_getElem (h.nodeCount ▸ hn)⟩
  obtain ⟨hid, hprocess, -⟩ := place_eq_ok (h.node _ x hx)
  exact (congrArg d.processOf hid).trans
    ((processOf_of_mem hnodup (List.mem_of_getElem? hx)).trans hprocess.symm)

/-- The steps of `addFlow`. -/
theorem addFlow_eq_ok (h : d.addFlow g f = .ok g') : ∃ source target,
    g.nodeById? f.source = some source ∧ g.nodeById? f.target = some target ∧
      (g.flowById? f.id).isSome = false ∧ d.isProcess (f.process.getD (g.node source).process) ∧
      g' = g.withFlow {
        id := f.id, name := f.name, kind := f.kind, source, target
        process := f.process.getD (g.node source).process } := by
  unfold ProcessDeclaration.addFlow at h
  split at h
  · cases h
  split at h
  · cases h
  rename_i source hsource
  split at h
  · cases h
  rename_i target htarget
  simp only at h
  split at h
  · cases h
  rename_i hprocess
  obtain ⟨hfresh, rfl⟩ := insertFlow_eq_ok h
  exact ⟨source, target, hsource, htarget, hfresh, by simpa using hprocess, rfl⟩

theorem Declares.addFlow (h : Declares d l g) (hnodup : (d.nodes.map (·.id)).Nodup)
    (hadd : d.addFlow g f = .ok g') : Declares d (l ++ [f]) g' := by
  obtain ⟨source, target, hsource, htarget, hfresh, -, rfl⟩ := addFlow_eq_ok hadd
  obtain ⟨hs, hsid⟩ := nodeById?_eq_some hsource
  obtain ⟨ht, htid⟩ := nodeById?_eq_some htarget
  generalize hx : ({
    id := f.id, name := f.name, kind := f.kind, source, target
    process := f.process.getD (g.node source).process } : Flow) = x
  have hxs : x.source = source := by rw [← hx]
  have hxt : x.target = target := by rw [← hx]
  have hxid : x.id = f.id := by rw [← hx]
  have hs' : index x.source < g.nodes.size := hxs ▸ hs
  have ht' : index x.target < g.nodes.size := hxt ▸ ht
  have hbare := bare_withFlow hs' ht'
  have hdescribed : ∀ y, (g.withFlow x).described y = g.described y := by
    intro y
    have hid : ∀ n, ((g.withFlow x).node n).id = (g.node n).id := fun n =>
      congrArg (·.id) (hbare n)
    simp only [described, hid]
  have hnew : ∀ k, index k < g.flows.size → (g.flow k).id ≠ x.id := fun k hk he =>
    Bool.eq_false_iff.1 hfresh (isSome_flowById?_iff.2 ⟨k, hk, he.trans hxid⟩)
  refine ⟨h.linked.withFlow hs' ht', h.distinct.withFlow hs' ht' hnew, h.processId, h.name, ?_,
    fun i n hi => ?_, ?_, fun i y hi => ?_⟩
  · rw [size_nodes_withFlow, h.nodeCount]
  · rw [hbare]
    exact h.node i n hi
  · rw [size_flows_withFlow, h.flowCount, List.length_append]
    rfl
  · rw [hdescribed, flow_withFlow]
    rcases Nat.lt_or_ge i l.length with hlt | hge
    · rw [List.getElem?_append_left hlt] at hi
      have hne : (⟨i⟩ : FlowId) ≠ g.flows.next := Arena.ne_next_of_lt (h.flowCount.symm ▸ hlt)
      rw [if_neg hne]
      exact h.flow i y hi
    · rw [List.getElem?_append_right hge, List.getElem?_singleton] at hi
      split at hi
      · cases hi
        have hnext : (⟨i⟩ : FlowId) = g.flows.next := by
          rw [Arena.eq_next_iff, h.flowCount]
          exact Nat.le_antisymm (Nat.sub_eq_zero_iff_le.1 ‹_›) hge
        rw [if_pos hnext, ← hx, described, completed, hsid, htid, ← hsid, h.processOf_eq hnodup hs]
      · cases hi

theorem Declares.addFlows (h : Declares d l g) (hnodup : (d.nodes.map (·.id)).Nodup)
    {fs : List FlowDeclaration} (hadd : fs.foldlM d.addFlow g = .ok g') :
    Declares d (l ++ fs) g' := by
  induction fs generalizing g l with
  | nil =>
    cases hadd
    rwa [List.append_nil]
  | cons f fs ih =>
    rw [List.foldlM_cons] at hadd
    cases hf : d.addFlow g f with
    | error e => rw [hf] at hadd; cases hadd
    | ok g₁ =>
      rw [hf] at hadd
      have hrest := ih (h.addFlow hnodup hf) hadd
      rwa [List.append_assoc] at hrest

/-- The placed nodes on their own are the graph of the declarations without flows. -/
theorem declares_nodes (hnodup : (d.nodes.map (·.id)).Nodup) {nodes : List Node}
    (hlen : nodes.length = d.nodes.length)
    (hall : ∀ (i : Nat) (n : NodeDeclaration), d.nodes[i]? = some n →
      ∃ x, nodes[i]? = some x ∧ d.place n = .ok x) :
    Declares d [] ⟨d.processId, d.name, ⟨nodes⟩, {}⟩ := by
  generalize hg : (⟨d.processId, d.name, ⟨nodes⟩, {}⟩ : ProcessGraph) = g
  have hsize : g.nodes.size = d.nodes.length := by rw [← hg, ← hlen]; rfl
  have hplaced : ∀ (i : Nat) (n : NodeDeclaration), d.nodes[i]? = some n →
      d.place n = .ok (g.node ⟨i⟩) := by
    intro i n hi
    obtain ⟨x, hx, hok⟩ := hall i n hi
    have hnode : g.node ⟨i⟩ = x := by
      rw [← hg]
      exact congrArg (·.getD default) hx
    rwa [hnode]
  -- nodes come without flows, so what is said of flows holds for want of any
  have hbare : ∀ n, (g.node n).bare = g.node n := by
    intro n
    rcases Nat.lt_or_ge (index n) g.nodes.size with hlt | hge
    · obtain ⟨x, hx⟩ : ∃ x, d.nodes[index n]? = some x :=
        ⟨_, List.getElem?_eq_getElem (hsize ▸ hlt)⟩
      exact (place_eq_ok (hplaced _ x hx)).2.2
    · rw [node_eq_default hge]
      rfl
  have hin : ∀ n, (g.node n).incoming = [] := fun n => congrArg (·.incoming) (hbare n).symm
  have hout : ∀ n, (g.node n).outgoing = [] := fun n => congrArg (·.outgoing) (hbare n).symm
  have hnone : ∀ f : FlowId, ¬ index f < g.flows.size := fun f => by
    rw [← hg]
    exact Nat.not_lt_zero _
  refine ⟨⟨fun f hf => absurd hf (hnone f), fun f hf => absurd hf (hnone f), fun n f => ?_,
    fun n f => ?_, fun n => hin n ▸ List.nodup_nil, fun n => hout n ▸ List.nodup_nil⟩,
    ⟨fun n m hn hm he => ?_, fun f _ hf => absurd hf (hnone f)⟩, by rw [← hg], by rw [← hg], hsize,
    fun i n hi => ?_, by rw [← hg]; rfl, fun i f hi => by simp at hi⟩
  · rw [hin]
    exact ⟨fun h => absurd h List.not_mem_nil, fun h => absurd h.1 (hnone f)⟩
  · rw [hout]
    exact ⟨fun h => absurd h List.not_mem_nil, fun h => absurd h.1 (hnone f)⟩
  · have hid : ∀ n, index n < g.nodes.size → (d.nodes.map (·.id))[index n]? = some (g.node n).id := by
      intro n hn
      obtain ⟨x, hx⟩ : ∃ x, d.nodes[index n]? = some x :=
        ⟨_, List.getElem?_eq_getElem (hsize ▸ hn)⟩
      rw [List.getElem?_map, hx]
      exact congrArg some (place_eq_ok (hplaced _ x hx)).1.symm
    have hlt : index n < (d.nodes.map (·.id)).length := by rwa [List.length_map, ← hsize]
    exact index_inj.1 ((List.getElem?_inj hlt hnodup).1
      ((hid n hn).trans (he ▸ (hid m hm).symm)))
  · rw [hbare]
    exact hplaced i n hi

/-- What `build` answers has the declared nodes and flows. -/
theorem declares_of_build (h : d.build = .ok g) :
    (d.nodes.map (·.id)).Nodup ∧ Declares d d.flows g := by
  obtain ⟨hids, -, nodes, hplace, hflows⟩ := build_eq_ok_iff.1 h
  obtain ⟨hnodup, -⟩ := checkIds_eq_ok_iff.1 hids
  obtain ⟨hlen, hall⟩ := getElem?_of_mapM_eq_ok hplace
  exact ⟨hnodup, (declares_nodes hnodup hlen hall).addFlows hnodup hflows⟩

/-! ## Another order -/

/-- A permutation that leaves zero alone and moves the other numbers as `p` moves their
predecessors. -/
def shifted (p : Equiv.Perm Nat) : Equiv.Perm Nat where
  toFun
    | 0 => 0
    | i + 1 => p i + 1
  invFun
    | 0 => 0
    | i + 1 => p.symm i + 1
  left_inv i := by cases i <;> simp
  right_inv i := by cases i <;> simp

/-- Lists of the same members differ by a permutation of their positions. -/
theorem exists_perm_of_perm {α : Type} {l l' : List α} (h : l.Perm l') :
    ∃ p : Equiv.Perm Nat, (∀ i, l.length ≤ i → p i = i) ∧ ∀ i, l'[p i]? = l[i]? := by
  induction h with
  | nil => exact ⟨.refl _, fun _ _ => rfl, fun _ => rfl⟩
  | cons x _ ih =>
    obtain ⟨p, hfix, hget⟩ := ih
    refine ⟨shifted p, fun i hi => ?_, fun i => ?_⟩
    · cases i with
      | zero => rfl
      | succ i => exact congrArg (· + 1) (hfix i (Nat.le_of_succ_le_succ hi))
    · cases i with
      | zero => rfl
      | succ i => exact hget i
  | swap x y l =>
    have hfix : ∀ i, Equiv.swap 0 1 (i + 2) = i + 2 := fun i =>
      Equiv.swap_apply_of_ne_of_ne (by omega) (by omega)
    refine ⟨Equiv.swap 0 1, fun i hi => ?_, fun i => ?_⟩
    · match i, hi with
      | i + 2, _ => exact hfix i
    · match i with
      | 0 => rfl
      | 1 => rfl
      | i + 2 => rw [hfix]; rfl
  | trans h₁ _ ih₁ ih₂ =>
    obtain ⟨p, hp, hgetp⟩ := ih₁
    obtain ⟨q, hq, hgetq⟩ := ih₂
    refine ⟨p.trans q, fun i hi => ?_, fun i => ?_⟩
    · rw [Equiv.trans_apply, hp i hi, hq i (h₁.length_eq ▸ hi)]
    · rw [Equiv.trans_apply, hgetq, hgetp]

/-- The permutation of identifiers that a permutation of numbers stands for. -/
def renumber {ι : Type} [Identifier ι] (p : Equiv.Perm Nat) : Equiv.Perm ι where
  toFun i := ofIndex (p (index i))
  invFun i := ofIndex (p.symm (index i))
  left_inv i := by simp
  right_inv i := by simp

theorem renumber_eq_self {ι : Type} [Identifier ι] {p : Equiv.Perm Nat} {i : ι}
    (h : p (index i) = index i) : renumber p i = i := by
  change ofIndex (p (index i)) = i
  rw [h, ofIndex_index]

theorem eq_of_described {h : ProcessGraph} {σ : Equiv.Perm NodeId} {x y : Flow}
    (hdistinct : h.Distinct) (hnode : ∀ n, (h.node (σ n)).id = (g.node n).id)
    (hσ : ∀ n, index (σ n) < h.nodes.size ↔ index n < g.nodes.size)
    (hx : index x.source < g.nodes.size ∧ index x.target < g.nodes.size)
    (hy : index y.source < h.nodes.size ∧ index y.target < h.nodes.size)
    (he : h.described y = g.described x) : y = x.renamed σ := by
  have hend : ∀ {n m : NodeId}, index n < g.nodes.size → index m < h.nodes.size →
      (h.node m).id = (g.node n).id → m = σ n := fun {n m} hn hm he =>
    hdistinct.node _ _ hm ((hσ n).2 hn) (he.trans (hnode n).symm)
  have hsource := hend hx.1 hy.1 (congrArg (·.source) he)
  have htarget := hend hx.2 hy.2 (congrArg (·.target) he)
  have hprocess := Option.some.inj (congrArg (·.process) he)
  cases x
  cases y
  cases congrArg (·.id) he
  cases congrArg (·.name) he
  cases congrArg (·.kind) he
  simp only at hsource htarget hprocess
  simp only [Flow.renamed, hsource, htarget, hprocess]

/-- `build` makes a graph with other numbers of declarations in another order. -/
theorem matches_of_build (hid : d'.processId = d.processId) (hname : d'.name = d.name)
    (hnodes : d.nodes.Perm d'.nodes) (hflows : d.flows.Perm d'.flows) (hg : d.build = .ok g)
    (hg' : d'.build = .ok g') : ∃ σ τ, Matches σ τ g g' := by
  obtain ⟨hnodup, hd⟩ := declares_of_build hg
  obtain ⟨-, hd'⟩ := declares_of_build hg'
  have hsame : SameNodes d d' := ⟨hid, hnodes, hnodup⟩
  obtain ⟨p, hp, hgetp⟩ := exists_perm_of_perm hnodes
  obtain ⟨q, hq, hgetq⟩ := exists_perm_of_perm hflows
  have hnodeCount : g'.nodes.size = g.nodes.size := by
    rw [hd'.nodeCount, hd.nodeCount, hnodes.length_eq]
  have hflowCount : g'.flows.size = g.flows.size := by
    rw [hd'.flowCount, hd.flowCount, hflows.length_eq]
  have hfixp : ∀ n : NodeId, g.nodes.size ≤ index n → renumber p n = n := fun n hn =>
    renumber_eq_self (hp _ (hd.nodeCount ▸ hn))
  have hfixq : ∀ f : FlowId, g.flows.size ≤ index f → renumber q f = f := fun f hf =>
    renumber_eq_self (hq _ (hd.flowCount ▸ hf))
  have hltp : ∀ n, index (renumber p n) < g'.nodes.size ↔ index n < g.nodes.size := fun n => by
    rw [hnodeCount, lt_of_perm hfixp]
  have hltq : ∀ f, index (renumber q f) < g'.flows.size ↔ index f < g.flows.size := fun f => by
    rw [hflowCount, lt_of_perm hfixq]
  -- a node is placed by all declarations together, whatever their order, so both graphs place it alike
  have hnode : ∀ n, (g'.node (renumber p n)).bare = (g.node n).bare := by
    intro n
    rcases Nat.lt_or_ge (index n) g.nodes.size with hlt | hge
    · obtain ⟨x, hx⟩ : ∃ x, d.nodes[index n]? = some x :=
        ⟨_, List.getElem?_eq_getElem (hd.nodeCount ▸ hlt)⟩
      have hplaced := hd.node _ x hx
      rw [← hsame.place_eq, hd'.node _ x ((hgetp _).trans hx)] at hplaced
      exact Except.ok.inj hplaced
    · rw [hfixp n hge, node_eq_default hge, node_eq_default (hnodeCount ▸ hge)]
  refine ⟨renumber p, renumber q, ⟨?_, ?_, hnodeCount, hflowCount, hfixp, hfixq, hnode,
    fun f hf => ?_⟩, hd.linked, hd'.linked, hd.distinct, hd'.distinct⟩
  · rw [hd'.processId, hd.processId, hid]
  · rw [hd'.name, hd.name, hname]
  · obtain ⟨x, hx⟩ : ∃ x, d.flows[index f]? = some x :=
      ⟨_, List.getElem?_eq_getElem (hd.flowCount ▸ hf)⟩
    have hf' := (hltq f).2 hf
    refine eq_of_described hd'.distinct (fun n => congrArg (·.id) (hnode n)) hltp
      ⟨hd.linked.source f hf, hd.linked.target f hf⟩
      ⟨hd'.linked.source _ hf', hd'.linked.target _ hf'⟩ ?_
    exact (hd'.flow _ x ((hgetq _).trans hx)).trans
      ((hsame.completed_eq x).trans (hd.flow _ x hx).symm)

end ProcessDeclaration

end ProcessNet
