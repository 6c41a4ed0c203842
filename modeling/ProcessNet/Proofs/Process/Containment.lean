/-
How processes lie in each other. The way out of a process leads from it through the subprocesses around it
to the root process. In a graph that was built every process has one, of as many processes as it is deep
and one more, since depth falls by one at each step; so none comes twice, and a way of no more steps than
there are nodes is never cut. Depths therefore tell which subprocess can lie in which, and they are the
same in whatever order the subprocesses are looked at.
-/
import ProcessNet.Proofs.Process.Acceptance

namespace ProcessNet

open Identifier

namespace ProcessGraph

variable {g : ProcessGraph} {n m : NodeId} {process : String} {way : List String}

/-- The processes from one outwards to the root process, each held by the next one. -/
inductive WayOut (g : ProcessGraph) : String → List String → Prop
  | root : WayOut g g.processId [g.processId]
  | inside {n : NodeId} {way : List String} (hkind : (g.node n).kind.isSubprocess)
    (h : WayOut g (g.node n).process way) : WayOut g (g.node n).id ((g.node n).id :: way)

/-- The depth of a process, which is zero unless it is that of a subprocess. -/
def depthOf (g : ProcessGraph) (process : String) : Nat := ((g.nodeById? process).map g.depth).getD 0

/-- Depths, lists and ways out agree on how processes lie in each other. -/
structure Nests (g : ProcessGraph) : Prop where
  root : g.depthOf g.processId = 0
  depth : ∀ n, (g.node n).kind.isSubprocess →
    (g.node n).kind = .subprocess (g.depthOf (g.node n).process + 1)
  nodup : g.subprocessesInnermostFirst.Nodup
  mem : ∀ n, n ∈ g.subprocessesInnermostFirst ↔ (g.node n).kind.isSubprocess
  /-- A subprocess comes before each one that it lies in, at any level. -/
  innermostFirst : ∀ (i j : Nat) n m, g.subprocessesInnermostFirst[i]? = some n →
    g.subprocessesInnermostFirst[j]? = some m → g.Inside m (g.node n).process → i < j
  sameDepth : ∀ depth, (g.subprocessesInnermostFirst.filter (g.depth · = depth)).Pairwise
    fun (n m : NodeId) => (g.node n).id < (g.node m).id
  way : ∀ n, index n < g.nodes.size → g.WayOut (g.node n).process (g.processChain n)
  once : ∀ n, index n < g.nodes.size → (g.processChain n).Nodup
  /-- Without the bound on its steps the way would be no longer. -/
  uncut : ∀ n, index n < g.nodes.size → ∀ fuel, g.nodeCount ≤ fuel →
    g.chainFrom fuel (g.node n).process = g.processChain n
  within : ∀ process n, n ∈ g.nodesInside process true ↔
    index n < g.nodes.size ∧ ∃ way, g.WayOut (g.node n).process way ∧ process ∈ way
  sorted : ∀ process deep, (g.nodesInside process deep).Pairwise
    fun n m => (g.node n).id < (g.node m).id

theorem Layered.depthOf_root (hg : g.Layered) : g.depthOf g.processId = 0 := by
  cases hfind : g.nodeById? g.processId with
  | none => rw [depthOf, hfind]; rfl
  | some n =>
    obtain ⟨hlt, hid⟩ := ProcessDeclaration.nodeById?_eq_some hfind
    exact absurd hid (hg.apart n hlt)

theorem Distinct.depthOf_id (hd : g.Distinct) (hlt : index n < g.nodes.size) :
    g.depthOf (g.node n).id = g.depth n := by
  rw [depthOf, hd.nodeById?_eq_some_iff.2 ⟨hlt, rfl⟩]
  rfl

theorem kind_eq_subprocess (h : (g.node n).kind.isSubprocess) :
    (g.node n).kind = .subprocess (g.depth n) := by
  cases hkind : (g.node n).kind with
  | subprocess k => rw [ProcessGraph.depth, hkind]; rfl
  | _ => rw [hkind] at h; cases h

/-! ## Lists in the order of ids and depths -/

theorem Distinct.pairwise_sortedNodes (hd : g.Distinct) :
    g.sortedNodes.Pairwise fun n m => (g.node n).id < (g.node m).id := by
  have hsorted := (pairwise_sorted g.nodes (·.id) default).and (nodup_sortedNodes g)
  refine hsorted.imp_of_mem fun {n m} hn hm ⟨hle, hne⟩ => String.not_le.1 fun hge => hne ?_
  exact hd.node n m (mem_sortedNodes.1 hn) (mem_sortedNodes.1 hm) (String.le_antisymm hle hge)

theorem Distinct.pairwise_select (hd : g.Distinct) (keep : Node → Bool) :
    (g.select keep).Pairwise fun n m => (g.node n).id < (g.node m).id :=
  hd.pairwise_sortedNodes.filter _

/-- `mergeSort` keeps members in their order as far as it does not tell them apart. -/
theorem filter_mergeSort {α : Type} {le : α → α → Bool} {keep : α → Bool} {l : List α}
    (htrans : ∀ a b c, le a b → le b c → le a c) (htotal : ∀ a b, le a b || le b a)
    (hkeep : ∀ a b, keep a → keep b → le a b) :
    (l.mergeSort le).filter keep = l.filter keep := by
  have hsame : (l.filter keep).Pairwise fun a b => le a b :=
    List.pairwise_iff_forall_sublist.2 fun {a b} hab =>
      hkeep a b (List.mem_filter.1 (hab.subset (by simp))).2 (List.mem_filter.1 (hab.subset (by simp))).2
  have hsub := (List.sublist_mergeSort htrans htotal hsame List.filter_sublist).filter keep
  simp only [List.filter_filter, Bool.and_self] at hsub
  exact (hsub.eq_of_length ((List.mergeSort_perm l le).filter keep).length_eq.symm).symm

/-! ## The way out of a process -/

theorem WayOut.length_pos (h : g.WayOut process way) : 0 < way.length := by
  cases h <;> exact Nat.succ_pos _

/-- `chainFrom` finds the way with steps enough. -/
theorem WayOut.chainFrom_eq (h : g.WayOut process way) (hg : g.Layered) (hd : g.Distinct) {fuel : Nat}
    (hfuel : way.length ≤ fuel + 1) : g.chainFrom fuel process = way := by
  induction h generalizing fuel with
  | root => cases fuel <;> simp [chainFrom, isRoot]
  | @inside n way hkind h ih =>
    have hpos := h.length_pos
    rw [List.length_cons] at hfuel
    obtain ⟨fuel, rfl⟩ : ∃ k, fuel = k + 1 := ⟨fuel - 1, by omega⟩
    have hlt := lt_of_isSubprocess hkind
    have hfind : g.nodeById? (g.node n).id = some n := hd.nodeById?_eq_some_iff.2 ⟨hlt, rfl⟩
    have hne : ¬ g.isRoot (g.node n).id := fun he => hg.apart n hlt (of_decide_eq_true he)
    rw [chainFrom, if_neg hne, hfind]
    simp only [ih (Nat.le_of_succ_le_succ hfuel)]

/-- There is only one way out. -/
theorem WayOut.unique (h : g.WayOut process way) {way' : List String} (h' : g.WayOut process way')
    (hg : g.Layered) (hd : g.Distinct) : way = way' := by
  have hway : g.chainFrom (way.length + way'.length) process = way := h.chainFrom_eq hg hd (by omega)
  exact hway.symm.trans (h'.chainFrom_eq hg hd (by omega))

/-- What is passed on the way out lies less deep than all that is held where the way begins. -/
theorem WayOut.depth_lt (h : g.WayOut process way) (hg : g.Layered) :
    ∀ id ∈ way, id = g.processId ∨ ∃ m, (g.node m).kind.isSubprocess ∧ (g.node m).id = id ∧
      ∀ n, (g.node n).kind.isSubprocess → (g.node n).process = process → g.depth m < g.depth n := by
  induction h with
  | root => exact fun id hid => .inl (List.mem_singleton.1 hid)
  | @inside k way hkind _ ih =>
    refine List.forall_mem_cons.2 ⟨.inr ⟨k, hkind, rfl, fun n hn => hg.deeper n k hn hkind⟩,
      fun id hid => (ih id hid).imp_right ?_⟩
    rintro ⟨m, hm, rfl, hlt⟩
    exact ⟨m, hm, rfl, fun n hn hin => (hlt k hkind rfl).trans (hg.deeper n k hn hkind hin)⟩

theorem WayOut.nodup (h : g.WayOut process way) (hg : g.Layered) (hd : g.Distinct) : way.Nodup := by
  induction h with
  | root => exact List.nodup_singleton _
  | @inside n way hkind h ih =>
    refine List.nodup_cons.2 ⟨fun hmem => ?_, ih⟩
    rcases h.depth_lt hg _ hmem with hroot | ⟨m, hm, hid, hlt⟩
    · exact hg.apart n (lt_of_isSubprocess hkind) hroot
    · have hsame := hd.node m n (lt_of_isSubprocess hm) (lt_of_isSubprocess hkind) hid
      exact Nat.lt_irrefl _ (hsame ▸ hlt n hkind rfl)

/-- A subprocess lies deeper than each one that it lies in. -/
theorem Inside.depth_lt (h : g.Inside m (g.node n).process) (hm : (g.node m).kind.isSubprocess)
    (hn : (g.node n).kind.isSubprocess) (hg : g.Layered) : g.depth m < g.depth n := by
  obtain ⟨k, hk, hid, hdeep⟩ := h.exists_subprocess hm hg
  have hlt := hg.deeper n k hn hk hid.symm
  rcases hdeep with rfl | hdeep
  · exact hlt
  · exact hdeep.trans hlt

end ProcessGraph

/-! ## What is built -/

namespace ProcessDeclaration

open ProcessGraph

variable {d : ProcessDeclaration} {g : ProcessGraph} {n : NodeId} {id : String} {depth : Nat}

theorem nested_depth_of_build (h : d.build = .ok g) (hn : (g.node n).kind.isSubprocess) :
    d.Nested (g.node n).id (g.depth n) := by
  obtain ⟨x, -, hid, -, k, hk, hnested⟩ := exists_declared_of_build h (lt_of_isSubprocess hn)
  rw [hk, NodeKind.isSubprocess_atDepth] at hn
  rw [ProcessGraph.depth, hk, NodeKind.depth?_atDepth hn, hid]
  exact hnested hn

/-- `build` lets a subprocess lie one deeper than the process that holds it. -/
theorem depth_eq_of_build (h : d.build = .ok g) (hn : (g.node n).kind.isSubprocess) :
    g.depth n = g.depthOf (g.node n).process + 1 := by
  have hw := wellFormed_of_build h
  have hdeclares := (declares_of_build h).2
  obtain ⟨x, hx, hid, hprocess, k, hk, hnested⟩ := exists_declared_of_build h (lt_of_isSubprocess hn)
  have hkind : x.kind.isSubprocess := by rwa [hk, NodeKind.isSubprocess_atDepth] at hn
  have hdepth := nested_depth_of_build h hn
  rw [hid] at hdepth
  rcases (sound_of_build h).rooted.node n (lt_of_isSubprocess hn) with hroot | ⟨m, hm, hmid⟩
  · have hone : d.Nested x.id (0 + 1) := by
      refine .inside hx hkind ?_
      rw [← hprocess, hroot, hdeclares.processId]
      exact .root
    rw [hroot, (layered_of_build h).depthOf_root, hdepth.unique hw.ids hw.root hone]
  · have hsucc : d.Nested x.id (g.depth m + 1) := by
      refine .inside hx hkind ?_
      rw [← hprocess, ← hmid]
      exact nested_depth_of_build h hm
    rw [← hmid, hdeclares.distinct.depthOf_id (lt_of_isSubprocess hm),
      hdepth.unique hw.ids hw.root hsucc]

/-- What is nested has a way out with a step for each subprocess around. -/
theorem exists_wayOut_of_build (h : d.build = .ok g) (hid : d.Nested id depth) :
    ∃ way, g.WayOut id way ∧ way.length = depth + 1 := by
  induction hid with
  | root =>
    rw [← (declares_of_build h).2.processId]
    exact ⟨_, .root, rfl⟩
  | @inside x depth hx hkind _ ih =>
    obtain ⟨way, hway, hlength⟩ := ih
    obtain ⟨i, hi⟩ := List.mem_iff_getElem?.1 hx
    obtain ⟨hxid, -, hxprocess, k, hk, -⟩ := (realized_of_build h).node i x hi
    have hsub : (g.node ⟨i⟩).kind.isSubprocess := by rwa [hk, NodeKind.isSubprocess_atDepth]
    have hstep := WayOut.inside hsub (hxprocess.symm ▸ hway)
    rw [hxid] at hstep
    exact ⟨_, hstep, congrArg (· + 1) hlength⟩

/-- Each node that is there has a way out of no more steps than there are nodes. -/
theorem exists_short_wayOut (h : d.build = .ok g) (hn : index n < g.nodes.size) :
    ∃ way, g.WayOut (g.node n).process way ∧ way.length ≤ g.nodeCount + 1 := by
  have hw := wellFormed_of_build h
  have hdeclares := (declares_of_build h).2
  have hprocess : ∃ depth, d.Nested (g.node n).process depth := by
    rcases (sound_of_build h).rooted.node n hn with hroot | ⟨m, hm, hid⟩
    · rw [hroot, hdeclares.processId]
      exact ⟨0, .root⟩
    · exact ⟨_, hid ▸ nested_depth_of_build h hm⟩
  obtain ⟨depth, hdepth⟩ := hprocess
  obtain ⟨way, hway, hlength⟩ := exists_wayOut_of_build h hdepth
  refine ⟨way, hway, ?_⟩
  rw [hlength, nodeCount, hdeclares.nodeCount]
  exact Nat.succ_le_succ (hdepth.le_length hw.ids hw.root)

theorem nests_of_build (h : d.build = .ok g) : g.Nests := by
  have hg := layered_of_build h
  have hd := (declares_of_build h).2.distinct
  -- a way out has no more steps than there are nodes, so the bound on the steps of `chainFrom` cuts none off
  have hchain : ∀ n, index n < g.nodes.size → ∀ fuel, g.nodeCount ≤ fuel →
      g.WayOut (g.node n).process (g.chainFrom fuel (g.node n).process) := by
    intro n hn fuel hfuel
    obtain ⟨way, hway, hlength⟩ := exists_short_wayOut h hn
    rwa [hway.chainFrom_eq hg hd (hlength.trans (Nat.succ_le_succ hfuel))]
  have hway : ∀ n, index n < g.nodes.size → g.WayOut (g.node n).process (g.processChain n) :=
    fun n hn => hchain n hn _ (Nat.le_refl _)
  have hmem : ∀ n, n ∈ g.subprocessesInnermostFirst ↔ (g.node n).kind.isSubprocess := fun n =>
    mem_subprocessesInnermostFirst.trans (and_iff_right_of_imp lt_of_isSubprocess)
  have hsub : ∀ {i n}, g.subprocessesInnermostFirst[i]? = some n → (g.node n).kind.isSubprocess :=
    fun hi => (hmem _).1 (List.mem_of_getElem? hi)
  refine {
    root := hg.depthOf_root
    depth := fun n hn => by rw [kind_eq_subprocess hn, depth_eq_of_build h hn]
    nodup := (List.mergeSort_perm _ _).nodup_iff.2 (nodup_select _)
    mem := hmem
    innermostFirst := fun i j n m hi hj hin => ?_
    sameDepth := fun depth => ?_
    way := hway
    once := fun n hn => (hway n hn).nodup hg hd
    uncut := fun n hn fuel hfuel => (hchain n hn fuel hfuel).unique (hway n hn) hg hd
    within := fun process n => ?_
    sorted := fun process deep => hd.pairwise_sortedNodes.filter _ }
  · have hlt := hin.depth_lt (hsub hj) (hsub hi) hg
    refine Nat.lt_of_not_le fun hji => ?_
    rcases Nat.lt_or_eq_of_le hji with hji | rfl
    · obtain ⟨hil, rfl⟩ := List.getElem?_eq_some_iff.1 hi
      obtain ⟨hjl, rfl⟩ := List.getElem?_eq_some_iff.1 hj
      exact Nat.not_lt_of_le (List.pairwise_iff_getElem.1 (pairwise_depth g) j i hjl hil hji) hlt
    · cases hi.symm.trans hj
      exact Nat.lt_irrefl _ hlt
  · rw [subprocessesInnermostFirst, filter_mergeSort]
    · exact (hd.pairwise_select _).filter _
    all_goals simp only [decide_eq_true_eq, Bool.or_eq_true]; omega
  · rw [nodesInside, List.mem_filter, mem_sortedNodes, if_pos rfl, List.contains_iff_mem]
    refine and_congr_right fun hn => ⟨fun hmem => ⟨_, hway n hn, hmem⟩, ?_⟩
    rintro ⟨way, hway', hmem⟩
    exact (hway n hn).unique hway' hg hd ▸ hmem

/-- In whatever order `buildIn` looks at the subprocesses for their depths, it builds the same graph. Its
subprocesses lie one deeper than the process that holds them, the innermost come first, and the way out
of each node leads through all processes around it to the root process. -/
theorem nests_of_buildIn {order : List String} (horder : order.Perm d.subprocessIds)
    (h : d.buildIn order = .ok g) :
    g.Nests ∧ ∀ order', order'.Perm d.subprocessIds → d.buildIn order' = .ok g := by
  have hsteps := (buildIn_eq_ok_iff horder).1 h
  exact ⟨nests_of_build (build_eq_ok_iff.2 hsteps), fun order' horder' =>
    (buildIn_eq_ok_iff horder').2 hsteps⟩

/-- The outer subprocess is looked at first, and the inner one from there on. The task in the inner one is
found inside both, and the inner one comes first. -/
theorem retried_nests : ["outer", "inner"].Perm retried.subprocessIds ∧
    retried.buildIn ["outer", "inner"] = .ok retriedGraph ∧
    retried.buildIn ["inner", "outer"] = .ok retriedGraph ∧
    (retriedGraph.node ⟨0⟩).kind = .subprocess (retriedGraph.depthOf "outer" + 1) ∧
    retriedGraph.WayOut "inner" ["inner", "outer", "ro\"ot"] ∧
    (⟨3⟩ : NodeId) ∈ retriedGraph.nodesInside "outer" true := by
  have hperm : ["outer", "inner"].Perm retried.subprocessIds := by decide
  have hbuild : retried.buildIn ["outer", "inner"] = .ok retriedGraph := by decide +kernel
  obtain ⟨hnests, horders⟩ := nests_of_buildIn hperm hbuild
  have hway : retriedGraph.WayOut "inner" ["inner", "outer", "ro\"ot"] := hnests.way ⟨3⟩ (by decide)
  exact ⟨hperm, hbuild, horders _ (.refl _), hnests.depth ⟨0⟩ rfl, hway,
    (hnests.within _ _).2 ⟨by decide, _, hway, by decide⟩⟩

end ProcessDeclaration

end ProcessNet
