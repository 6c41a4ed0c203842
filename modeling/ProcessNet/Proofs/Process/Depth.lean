/-
Depths of declared subprocesses. The depth of a subprocess is the number of steps from it out to the root
process. It is found by taking these steps one by one, and also by a walk that stops where a depth is noted
already: in whatever order the subprocesses are looked at, the walk notes the same depths, for what is
noted is right at any time and a way that leads to the root is never cut.
-/
import Mathlib.Data.List.Nodup
import Mathlib.Data.List.Perm.Subperm
import ProcessNet.Process.Declaration
import ProcessNet.Proofs.Outcome

namespace ProcessNet.ProcessDeclaration

variable {d : ProcessDeclaration} {id : String} {depth : Nat}

/-! ## Steps out to the root -/

/-- The process is so many subprocesses away from the root. -/
inductive Nested (d : ProcessDeclaration) : String → Nat → Prop
  | root : Nested d d.processId 0
  | inside {n : NodeDeclaration} {depth : Nat} (hmem : n ∈ d.nodes) (hkind : n.kind.isSubprocess)
    (h : Nested d n.process depth) : Nested d n.id (depth + 1)

theorem exists_of_subprocess? {n : NodeDeclaration} (h : d.subprocess? id = some n) :
    n ∈ d.nodes ∧ n.kind.isSubprocess ∧ n.id = id := by
  have hn := List.find?_some h
  rw [Bool.and_eq_true, decide_eq_true_eq] at hn
  exact ⟨List.mem_of_find?_eq_some h, hn.2, hn.1⟩

theorem subprocess?_eq_some {n : NodeDeclaration} (hids : (d.nodes.map (·.id)).Nodup)
    (hmem : n ∈ d.nodes) (hkind : n.kind.isSubprocess) : d.subprocess? n.id = some n := by
  cases hfind : d.subprocess? n.id with
  | none =>
    have hnone := List.find?_eq_none.1 hfind n hmem
    simp [hkind] at hnone
  | some m =>
    obtain ⟨hm, _, hid⟩ := exists_of_subprocess? hfind
    rw [List.inj_on_of_nodup_map hids hm hmem hid]

/-- How many subprocesses lie around the inside of a process, at most `fuel` of them. -/
def depthWithin? (d : ProcessDeclaration) : Nat → String → Option Nat
  | 0, id => if id = d.processId then some 0 else none
  | fuel + 1, id =>
    if id = d.processId then some 0
    else
      match d.subprocess? id with
      | some n => (d.depthWithin? fuel n.process).map (· + 1)
      | none => none

/-- The depth of a subprocess, unless its chain of subprocesses never leads to the root. A chain
without repetition has at most as many members as there are nodes. -/
def depth? (d : ProcessDeclaration) (id : String) : Option Nat := d.depthWithin? d.nodes.length id

/-- The node with its depth, if it is a subprocess. -/
def place (d : ProcessDeclaration) (n : NodeDeclaration) : Except GraphError Node :=
  let make := fun kind => { id := n.id, name := n.name, kind, process := n.process : Node }
  match n.kind with
  | .subprocess _ =>
    match d.depth? n.id with
    | some depth => .ok (make (.subprocess depth))
    | none => .error (.containmentCycle n.id)
  | kind => .ok (make kind)

theorem nested_of_depthWithin? {fuel : Nat} (h : d.depthWithin? fuel id = some depth) :
    d.Nested id depth := by
  induction fuel generalizing id depth with
  | zero =>
    rw [depthWithin?] at h
    split at h
    · rename_i hroot
      cases h
      exact hroot ▸ .root
    · cases h
  | succ fuel ih =>
    rw [depthWithin?] at h
    split at h
    · rename_i hroot
      cases h
      exact hroot ▸ .root
    · cases hn : d.subprocess? id with
      | none => rw [hn] at h; cases h
      | some n =>
        rw [hn] at h
        obtain ⟨k, hk, rfl⟩ := Option.map_eq_some_iff.1 h
        obtain ⟨hmem, hkind, rfl⟩ := exists_of_subprocess? hn
        exact .inside hmem hkind (ih hk)

/-- More fuel does not change a depth that is found. -/
theorem depthWithin?_of_le {fuel fuel' : Nat} (h : d.depthWithin? fuel id = some depth)
    (hle : fuel ≤ fuel') : d.depthWithin? fuel' id = some depth := by
  induction fuel generalizing id depth fuel' with
  | zero =>
    rw [depthWithin?] at h
    split at h
    · rename_i hroot
      cases fuel' <;> rw [depthWithin?, if_pos hroot, h]
    · cases h
  | succ fuel ih =>
    obtain ⟨fuel', rfl⟩ : ∃ k, fuel' = k + 1 := ⟨fuel' - 1, by omega⟩
    rw [depthWithin?] at h ⊢
    split at h
    · rename_i hroot
      rw [if_pos hroot, h]
    · rename_i hroot
      rw [if_neg hroot]
      cases hn : d.subprocess? id with
      | none => rw [hn] at h; cases h
      | some n =>
        rw [hn] at h
        obtain ⟨k, hk, rfl⟩ := Option.map_eq_some_iff.1 h
        simp only [ih hk (Nat.le_of_succ_le_succ hle), Option.map_some]

section Distinct

variable (hids : (d.nodes.map (·.id)).Nodup) (hroot : ∀ n ∈ d.nodes, n.id ≠ d.processId)

include hids hroot

theorem Nested.depthWithin?_eq (h : d.Nested id depth) : d.depthWithin? depth id = some depth := by
  induction h with
  | root => rw [depthWithin?, if_pos rfl]
  | inside hmem hkind _ ih =>
    rw [depthWithin?, if_neg (hroot _ hmem), subprocess?_eq_some hids hmem hkind]
    simp only [ih, Option.map_some]

theorem Nested.unique {depth' : Nat} (h : d.Nested id depth) (h' : d.Nested id depth') :
    depth = depth' := by
  have hmax := depthWithin?_of_le (h.depthWithin?_eq hids hroot) (Nat.le_max_left depth depth')
  have hmax' := depthWithin?_of_le (h'.depthWithin?_eq hids hroot) (Nat.le_max_right depth depth')
  exact Option.some.inj (hmax.symm.trans hmax')

/-- The subprocesses on the way out have depths of their own, so none of them comes twice. -/
theorem Nested.le_length (h : d.Nested id depth) : depth ≤ d.nodes.length := by
  have hchain : ∃ l : List NodeDeclaration, l.length = depth ∧ l.Nodup ∧
      ∀ n ∈ l, n ∈ d.nodes ∧ ∃ k ≤ depth, d.Nested n.id k := by
    induction h with
    | root => exact ⟨[], rfl, List.nodup_nil, fun _ hn => absurd hn List.not_mem_nil⟩
    | @inside n depth hmem hkind h ih =>
      obtain ⟨l, hlength, hnodup, hall⟩ := ih
      have hn : d.Nested n.id (depth + 1) := .inside hmem hkind h
      refine ⟨n :: l, by rw [List.length_cons, hlength], List.nodup_cons.2 ⟨fun hnl => ?_, hnodup⟩,
        List.forall_mem_cons.2 ⟨⟨hmem, depth + 1, Nat.le_refl _, hn⟩, fun m hm => ?_⟩⟩
      · obtain ⟨-, k, hk, hnk⟩ := hall n hnl
        have := hn.unique hids hroot hnk
        omega
      · obtain ⟨hm, k, hk, hmk⟩ := hall m hm
        exact ⟨hm, k, Nat.le_succ_of_le hk, hmk⟩
  obtain ⟨l, rfl, hnodup, hall⟩ := hchain
  exact (hnodup.subperm fun n hn => (hall n hn).1).length_le

theorem depth?_eq_some_iff : d.depth? id = some depth ↔ d.Nested id depth :=
  ⟨nested_of_depthWithin?, fun h =>
    depthWithin?_of_le (h.depthWithin?_eq hids hroot) (h.le_length hids hroot)⟩

end Distinct

theorem nested_of_place {n : NodeDeclaration} {x : Node} (hkind : n.kind.isSubprocess)
    (h : d.place n = .ok x) : ∃ depth, d.Nested n.id depth := by
  unfold place at h
  cases hdepth : d.depth? n.id with
  | some depth => exact ⟨depth, nested_of_depthWithin? hdepth⟩
  | none =>
    cases hn : n.kind with
    | subprocess k => simp only [hn, hdepth] at h; cases h
    | _ => rw [hn] at hkind; cases hkind

/-! ## The walk that notes depths -/

section Walk

variable {depths depths' : List (String × Nat)} {start : String} {fuel : Nat}
  {passed passed' order : List String}

/-- What `noteDepths` has noted is right. -/
def Right (d : ProcessDeclaration) (depths : List (String × Nat)) : Prop :=
  ∀ id depth, depths.lookup id = some depth → d.Nested id depth

/-- The subprocesses passed, the last one first, lie in each other, and the last one lies in `id`. -/
inductive Leads (d : ProcessDeclaration) : List String → String → Prop
  | start {id : String} : Leads d [] id
  | step {n : NodeDeclaration} {passed : List String} (hmem : n ∈ d.nodes)
    (hkind : n.kind.isSubprocess) (h : Leads d passed n.id) : Leads d (n.id :: passed) n.process

/-- `wayOut` ends at a process with the depth answered. It keeps what was passed before, and goes on from
a process that has no depth yet by passing it. -/
theorem wayOut_eq_ok (hright : d.Right depths) (hleads : d.Leads passed id)
    (h : d.wayOut depths start fuel passed id = .ok (passed', depth)) :
    (∃ last, d.Nested last depth ∧ d.Leads passed' last) ∧ passed ⊆ passed' ∧
      (id = d.processId ∨ (depths.lookup id).isSome ∨ id ∈ passed') := by
  induction fuel generalizing passed id with
  | zero => cases h
  | succ fuel ih =>
    rw [wayOut] at h
    cases hnoted : depths.lookup id with
    | some k =>
      rw [hnoted] at h
      cases h
      exact ⟨⟨id, hright id depth hnoted, hleads⟩, List.Subset.refl _, .inr (.inl rfl)⟩
    | none =>
      rw [hnoted] at h
      dsimp only at h
      split at h
      · rename_i hroot
        cases h
        exact ⟨⟨id, hroot ▸ .root, hleads⟩, List.Subset.refl _, .inl hroot⟩
      · split at h
        · cases h
        · cases hn : d.subprocess? id with
          | none => rw [hn] at h; cases h
          | some n =>
            rw [hn] at h
            obtain ⟨hmem, hkind, rfl⟩ := exists_of_subprocess? hn
            obtain ⟨hlast, hkept, -⟩ := ih (.step hmem hkind hleads) h
            obtain ⟨hpassed, hkept⟩ := List.cons_subset.1 hkept
            exact ⟨hlast, hkept, .inr (.inr hpassed)⟩

/-- What was passed on a way out lies one deeper each. -/
theorem Leads.nested (h : d.Leads passed id) (hid : d.Nested id depth) :
    ∀ e ∈ passed.zipIdx (depth + 1), d.Nested e.1 e.2 := by
  induction h generalizing depth with
  | start => exact fun e he => absurd he List.not_mem_nil
  | step hmem hkind _ ih =>
    have hinner := Nested.inside hmem hkind hid
    rw [List.zipIdx_cons]
    exact List.forall_mem_cons.2 ⟨hinner, ih hinner⟩

theorem mem_of_lookup {l : List (String × Nat)} (h : l.lookup id = some depth) : (id, depth) ∈ l := by
  obtain ⟨l₁, l₂, rfl, -⟩ := List.lookup_eq_some_iff.1 h
  exact List.mem_append_right l₁ List.mem_cons_self

theorem isSome_lookup_of_mem {l : List (String × Nat)} (h : id ∈ l.map (·.1)) :
    (l.lookup id).isSome := by
  obtain ⟨e, he, rfl⟩ := List.mem_map.1 h
  rw [Option.isSome_iff_ne_none]
  intro hnone
  exact absurd rfl (bne_iff_ne.1 (List.lookup_eq_none_iff.1 hnone e he))

/-- `noteDepths` notes a subprocess with all on its way out, and what was noted before stays noted. -/
theorem noteDepths_eq_ok (hright : d.Right depths) (h : d.noteDepths depths start = .ok depths') :
    d.Right depths' ∧ (∀ id, (depths.lookup id).isSome → (depths'.lookup id).isSome) ∧
      (start ≠ d.processId → (depths'.lookup start).isSome) := by
  unfold noteDepths at h
  cases hway : d.wayOut depths start (d.nodes.length + 1) [] start with
  | error e => rw [hway] at h; cases h
  | ok way =>
    rw [hway] at h
    obtain ⟨passed, depth⟩ := way
    cases h
    obtain ⟨⟨last, hlast, hleads⟩, -, hstart⟩ := wayOut_eq_ok hright .start hway
    have hkept : ∀ id, (depths.lookup id).isSome →
        ((passed.zipIdx (depth + 1) ++ depths).lookup id).isSome := fun id hid => by
      rw [List.lookup_append, Option.isSome_or, hid, Bool.or_true]
    refine ⟨fun id k hk => ?_, hkept, fun hne => ?_⟩
    · rw [List.lookup_append] at hk
      rcases Option.or_eq_some_iff.1 hk with hk | ⟨-, hk⟩
      · exact hleads.nested hlast (id, k) (mem_of_lookup hk)
      · exact hright id k hk
    · rcases hstart with hroot | hnoted | hpassed
      · exact absurd hroot hne
      · exact hkept start hnoted
      · rw [List.lookup_append, Option.isSome_or, Bool.or_eq_true]
        refine .inl (isSome_lookup_of_mem ?_)
        rwa [List.zipIdx_map_fst]

theorem foldlM_noteDepths_eq_ok (hright : d.Right depths) (hroot : ∀ id ∈ order, id ≠ d.processId)
    (h : order.foldlM d.noteDepths depths = .ok depths') :
    d.Right depths' ∧ (∀ id, (depths.lookup id).isSome → (depths'.lookup id).isSome) ∧
      ∀ id ∈ order, (depths'.lookup id).isSome := by
  induction order generalizing depths with
  | nil =>
    cases h
    exact ⟨hright, fun _ hid => hid, fun _ hid => absurd hid List.not_mem_nil⟩
  | cons start order ih =>
    rw [List.foldlM_cons] at h
    obtain ⟨depths₁, hnote, hrest⟩ := except_bind_eq_ok.1 h
    obtain ⟨hne, hroot⟩ := List.forall_mem_cons.1 hroot
    obtain ⟨hright₁, hkept₁, hstart⟩ := noteDepths_eq_ok hright hnote
    obtain ⟨hright', hkept', hall⟩ := ih hright₁ hroot hrest
    exact ⟨hright', fun id hid => hkept' id (hkept₁ id hid),
      List.forall_mem_cons.2 ⟨hkept' start (hstart hne), hall⟩⟩

section Distinct

variable (hids : (d.nodes.map (·.id)).Nodup) (hroot : ∀ n ∈ d.nodes, n.id ≠ d.processId)

include hids hroot

/-- `wayOut` finds a way that leads to the root: what was passed lies deeper than what is still to come,
so the way comes by nothing twice, and it is no longer than the depth tells. -/
theorem Nested.exists_wayOut (depths : List (String × Nat)) (start : String)
    (h : d.Nested id depth) (hfuel : depth < fuel)
    (hdeeper : ∀ inner ∈ passed, ∃ k, depth < k ∧ d.Nested inner k) :
    ∃ way, d.wayOut depths start fuel passed id = .ok way := by
  induction h generalizing fuel passed with
  | root =>
    obtain ⟨fuel, rfl⟩ : ∃ k, fuel = k + 1 := ⟨fuel - 1, by omega⟩
    rw [wayOut]
    cases depths.lookup d.processId with
    | some k => exact ⟨_, rfl⟩
    | none => exact ⟨_, if_pos rfl⟩
  | @inside n depth hmem hkind h ih =>
    obtain ⟨fuel, rfl⟩ : ∃ k, fuel = k + 1 := ⟨fuel - 1, by omega⟩
    have hn : d.Nested n.id (depth + 1) := .inside hmem hkind h
    have hnew : n.id ∉ passed := by
      intro hpassed
      obtain ⟨k, hlt, hk⟩ := hdeeper _ hpassed
      have := hn.unique hids hroot hk
      omega
    rw [wayOut]
    cases depths.lookup n.id with
    | some k => exact ⟨_, rfl⟩
    | none =>
      dsimp only
      rw [if_neg (hroot n hmem), if_neg hnew, subprocess?_eq_some hids hmem hkind]
      refine ih (by omega) (List.forall_mem_cons.2 ⟨⟨depth + 1, by omega, hn⟩, fun inner hin => ?_⟩)
      obtain ⟨k, hlt, hk⟩ := hdeeper inner hin
      exact ⟨k, by omega, hk⟩

theorem exists_foldlM_noteDepths (depths : List (String × Nat))
    (h : ∀ id ∈ order, ∃ depth, d.Nested id depth) :
    ∃ depths', order.foldlM d.noteDepths depths = .ok depths' := by
  induction order generalizing depths with
  | nil => exact ⟨depths, rfl⟩
  | cons start order ih =>
    obtain ⟨⟨depth, hstart⟩, hrest⟩ := List.forall_mem_cons.1 h
    have hfuel : depth < d.nodes.length + 1 := Nat.lt_succ_of_le (hstart.le_length hids hroot)
    obtain ⟨way, hway⟩ := hstart.exists_wayOut hids hroot depths start hfuel
      fun _ hin => absurd hin List.not_mem_nil
    obtain ⟨depths', hdepths'⟩ := ih (way.1.zipIdx (way.2 + 1) ++ depths) hrest
    refine ⟨depths', ?_⟩
    rw [List.foldlM_cons, noteDepths, hway]
    exact hdepths'

theorem place_eq_ok_node {n : NodeDeclaration} (hright : d.Right depths)
    (hnoted : n.kind.isSubprocess → (depths.lookup n.id).isSome) :
    d.place n = .ok (n.node depths) := by
  unfold place NodeDeclaration.node
  cases hkind : n.kind with
  | subprocess k =>
    obtain ⟨depth, hdepth⟩ := Option.isSome_iff_exists.1 (hnoted (by rw [hkind]; rfl))
    simp only [hdepth, (depth?_eq_some_iff hids hroot).2 (hright n.id depth hdepth), Option.getD_some]
  | _ => rfl

/-- Whenever `nestingDepths` looks at all subprocesses, each declared node gets the depth that is found
step by step. -/
theorem place_of_nestingDepths (hall : ∀ n ∈ d.nodes, n.kind.isSubprocess → n.id ∈ order)
    (horder : ∀ id ∈ order, id ≠ d.processId) (h : d.nestingDepths order = .ok depths) :
    ∀ n ∈ d.nodes, d.place n = .ok (n.node depths) := by
  have hempty : d.Right [] := fun _ _ hid => nomatch hid
  obtain ⟨hright, -, hnoted⟩ := foldlM_noteDepths_eq_ok hempty horder h
  exact fun n hn => place_eq_ok_node hids hroot hright fun hkind => hnoted _ (hall n hn hkind)

end Distinct

end Walk

end ProcessNet.ProcessDeclaration
