/-
The visible language is exact. For every state graph that a search answers, every target and every
bound it has just the label sequences within the bound of the paths, of any length, from the first state
to the state of the target. Paths may go through the target on their way, and silent firings may go in
cycles.

The search works on the ends of paths, each with its labels. What it has met are ends of paths; what it
has worked on is met with all that comes next. When nothing met is left to work on, the ends worked on
hold the empty path and are closed under one more firing, so they are all ends that there are.
-/
import Mathlib.Data.String.Basic
import ProcessNet.Proofs.StateSpace.Exact
import ProcessNet.StateSpace.Language

namespace ProcessNet

namespace StateGraph

variable {n : Net} {m : Marking} {limit : Option Nat} {g : StateGraph} {max : Nat} {t u : Trail}

/-! ## Paths and trails -/

/-- The edges lead, one after the other, from the state `i` to another state, or to itself. -/
inductive Path (g : StateGraph) (i : Nat) : List Edge → Nat → Prop
  | stay : g.Path i [] i
  | step {es : List Edge} {e : Edge} (h : g.Path i es e.source) (he : e ∈ g.edges.toList) :
    g.Path i (es ++ [e]) e.target

/-- The labels along a path, silent firings left out. -/
abbrev labels (es : List Edge) : List String := es.filterMap (·.label)

theorem labels_append_singleton (es : List Edge) (e : Edge) :
    labels (es ++ [e]) = labels es ++ e.label.toList := by
  rw [labels, List.filterMap_append]
  cases he : e.label <;> simp [he]

/-- Some path from the first state has this end and these labels, at most `max` of them. -/
def HasTrail (g : StateGraph) (max : Nat) (t : Trail) : Prop :=
  t.labels.length ≤ max ∧ ∃ es, g.Path 0 es t.state ∧ labels es = t.labels

theorem hasTrail_start (g : StateGraph) (max : Nat) : g.HasTrail max ⟨0, []⟩ :=
  ⟨Nat.zero_le max, [], .stay, rfl⟩

theorem after?_eq_some_iff {e : Edge} (ht : t.labels.length ≤ max) : t.after? max e = some u ↔
    u.labels.length ≤ max ∧ u = ⟨e.target, t.labels ++ e.label.toList⟩ := by
  rw [Trail.after?]
  cases e.label with
  | none =>
    rw [Option.some_inj, Option.toList_none, List.append_nil, eq_comm]
    exact (and_iff_right_of_imp fun h => h ▸ ht).symm
  | some a =>
    dsimp only
    rw [Option.toList_some]
    split
    · rename_i hfull
      refine iff_of_false (fun h => Option.some_ne_none u h.symm) ?_
      rintro ⟨hle, rfl⟩
      rw [List.length_append, List.length_singleton] at hle
      omega
    · rename_i hroom
      rw [Option.some_inj, eq_comm]
      refine (and_iff_right_of_imp ?_).symm
      rintro rfl
      rw [List.length_append, List.length_singleton]
      omega

/-- Behind a trail within the bound come the trails behind the edges out of its state that are within
the bound, too. -/
theorem mem_trailsAfter_iff (ht : t.labels.length ≤ max) :
    u ∈ g.trailsAfter max t ↔ u.labels.length ≤ max ∧
      ∃ e ∈ g.edges.toList, e.source = t.state ∧ u = ⟨e.target, t.labels ++ e.label.toList⟩ := by
  simp only [mem_trailsAfter, after?_eq_some_iff ht]
  constructor
  · rintro ⟨e, he, hsource, hle, hu⟩
    exact ⟨hle, e, he, hsource, hu⟩
  · rintro ⟨hle, e, he, hsource, hu⟩
    exact ⟨e, he, hsource, hle, hu⟩

theorem HasTrail.after (h : g.HasTrail max t) (hu : u ∈ g.trailsAfter max t) : g.HasTrail max u := by
  obtain ⟨hle, e, he, hsource, rfl⟩ := (mem_trailsAfter_iff h.1).1 hu
  obtain ⟨_, es, hpath, hlabels⟩ := h
  rw [← hsource] at hpath
  exact ⟨hle, es ++ [e], hpath.step he, by rw [labels_append_singleton, hlabels]⟩

/-- What holds of the empty path and is passed on by each firing holds of all trails. -/
theorem HasTrail.induct {P : Trail → Prop} (h : g.HasTrail max t) (hstart : P ⟨0, []⟩)
    (hafter : ∀ t u, g.HasTrail max t → P t → u ∈ g.trailsAfter max t → P u) : P t := by
  obtain ⟨i, l⟩ := t
  obtain ⟨hle, es, hpath, rfl⟩ := h
  dsimp only at hle hpath
  induction hpath with
  | stay => exact hstart
  | @step es e hpath he ih =>
    -- labels are only added on the way, so a path within the bound never was beyond it
    rw [labels_append_singleton] at hle ⊢
    have hbefore : (labels es).length ≤ max :=
      Nat.le_trans (by rw [List.length_append]; exact Nat.le_add_right _ _) hle
    exact hafter ⟨e.source, labels es⟩ _ ⟨hbefore, es, hpath, rfl⟩ (ih hbefore)
      ((mem_trailsAfter_iff hbefore).2 ⟨hle, e, he, rfl, rfl⟩)

/-! ## The search for them -/

namespace Walk

variable {goal number : Nat} {w : Walk}

/-- What holds of a search that has come to the trail with the given number. -/
structure Sound (g : StateGraph) (goal max number : Nat) (w : Walk) : Prop where
  first : ⟨0, []⟩ ∈ w.queue
  met : ∀ t ∈ w.queue, g.HasTrail max t
  worked : ∀ i t, i < number → w.queue[i]? = some t → t ∈ w.seen
  seen : ∀ t ∈ w.seen, t ∈ w.queue ∧ ∀ u ∈ g.trailsAfter max t, u ∈ w.queue
  found : ∀ l, l ∈ w.found ↔ ⟨goal, l⟩ ∈ w.seen
  nodup : w.found.Nodup

theorem sound_start : Sound g goal max 0 .start where
  first := Array.mem_toList_iff.1 (List.mem_singleton.2 rfl)
  met _ ht := List.mem_singleton.1 (Array.mem_toList_iff.2 ht) ▸ g.hasTrail_start max
  worked _ _ hi := absurd hi (Nat.not_lt_zero _)
  seen _ ht := absurd ht Std.HashSet.not_mem_empty
  found _ := iff_of_false List.not_mem_nil Std.HashSet.not_mem_empty
  nodup := .nil

theorem Sound.skip (h : Sound g goal max number w) (hget : w.queue[number]? = some t)
    (hseen : t ∈ w.seen) : Sound g goal max (number + 1) w where
  __ := h
  worked i u hi hu := by
    rcases Nat.lt_succ_iff_lt_or_eq.1 hi with hi | rfl
    · exact h.worked i u hi hu
    · exact Option.some.inj (hget.symm.trans hu) ▸ hseen

theorem Sound.visit (h : Sound g goal max number w) (hget : w.queue[number]? = some t)
    (hnew : t ∉ w.seen) : Sound g goal max (number + 1) (w.visit g goal max t) where
  first := mem_queue_visit.2 (.inl h.first)
  met u hu := by
    have ht := h.met t (Array.mem_of_getElem? hget)
    exact (mem_queue_visit.1 hu).elim (h.met u) ht.after
  worked i u hi hu := by
    have hlt : number < w.queue.size := (Array.getElem?_eq_some_iff.1 hget).1
    rw [Walk.visit, Array.getElem?_append_left (by omega)] at hu
    rw [Walk.visit, Std.HashSet.mem_insert, beq_iff_eq]
    rcases Nat.lt_succ_iff_lt_or_eq.1 hi with hi | rfl
    · exact .inr (h.worked i u hi hu)
    · exact .inl (Option.some.inj (hget.symm.trans hu))
  seen u hu := by
    rw [Walk.visit, Std.HashSet.mem_insert, beq_iff_eq] at hu
    simp only [mem_queue_visit]
    rcases hu with rfl | hu
    · -- what comes next after the trail waits in the queue from now on
      exact ⟨.inl (Array.mem_of_getElem? hget), fun v hv => .inr hv⟩
    · obtain ⟨hmet, hafter⟩ := h.seen u hu
      exact ⟨.inl hmet, fun v hv => .inl (hafter v hv)⟩
  found l := by
    rw [Walk.visit, Std.HashSet.mem_insert, beq_iff_eq, ← h.found]
    split
    · rename_i hgoal
      rw [List.mem_cons, ← hgoal, Trail.mk.injEq, eq_self, true_and, eq_comm]
    · rename_i hgoal
      exact (or_iff_right fun he => hgoal (congrArg Trail.state he)).symm
  nodup := by
    rw [Walk.visit]
    split
    · rename_i hgoal
      refine List.nodup_cons.2 ⟨fun hmem => hnew ?_, h.nodup⟩
      rw [h.found, ← hgoal] at hmem
      exact hmem
    · exact h.nodup

/-- With nothing left to work on, all trails there are have been worked on. -/
theorem Sound.mem_seen_iff (h : Sound g goal max number w) (hend : w.queue[number]? = none) :
    t ∈ w.seen ↔ g.HasTrail max t := by
  have hall : ∀ t ∈ w.queue, t ∈ w.seen := by
    intro t ht
    obtain ⟨i, hi, rfl⟩ := Array.mem_iff_getElem.1 ht
    have hsize := Array.getElem?_eq_none_iff.1 hend
    exact h.worked i _ (by omega) (Array.getElem?_eq_getElem hi)
  constructor
  · exact fun ht => h.met t (h.seen t ht).1
  · intro ht
    refine ht.induct (hall _ h.first) fun t u _ hseen hu => ?_
    exact hall u ((h.seen t hseen).2 u hu)

/-- The search answers the labels of the trails that have come to the goal, each once. -/
theorem Sound.run (h : Sound g goal max number w) (hqueue : ∀ t ∈ w.queue, t ∈ g.trails max) :
    (∀ l, l ∈ w.run g goal max number hqueue ↔ g.HasTrail max ⟨goal, l⟩) ∧
      (w.run g goal max number hqueue).Nodup := by
  fun_induction Walk.run g goal max number w hqueue with
  | case1 number w hqueue hget =>
    exact ⟨fun l => (h.found l).trans (h.mem_seen_iff hget), h.nodup⟩
  | case2 number w hqueue t hget hseen ih => exact ih (h.skip hget hseen)
  | case3 number w hqueue t hget hseen ih => exact ih (h.visit hget hseen)

end Walk

/-! ## The order of label sequences -/

theorem precedes_cons_iff {a b : String} {l k : List String} :
    precedes (a :: l) (b :: k) ↔ a < b ∨ (a = b ∧ precedes l k) := by
  rw [precedes]
  split
  · rename_i he
    simp [he]
  · rename_i hne
    rw [decide_eq_true_iff, or_iff_left fun h => hne h.1]
    exact ⟨fun h => lt_of_le_of_ne h hne, le_of_lt⟩

theorem precedes_trans : ∀ a b c : List String, precedes a b → precedes b c → precedes a c
  | [], _, _, _, _ => rfl
  | _ :: _, [], _, h, _ => nomatch h
  | _ :: _, _ :: _, [], _, h => nomatch h
  | a :: l, b :: k, c :: j, hab, hbc => by
    rw [precedes_cons_iff] at hab hbc ⊢
    rcases hab with hab | ⟨rfl, hab⟩
    · rcases hbc with hbc | ⟨rfl, _⟩
      · exact .inl (lt_trans hab hbc)
      · exact .inl hab
    · exact hbc.imp_right fun h => ⟨h.1, precedes_trans l k j hab h.2⟩

theorem precedes_total : ∀ a b : List String, (precedes a b || precedes b a) = true
  | [], _ => rfl
  | _ :: _, [] => rfl
  | a :: l, b :: k => by
    have ih := precedes_total l k
    rw [Bool.or_eq_true] at ih ⊢
    rw [precedes_cons_iff, precedes_cons_iff]
    rcases lt_trichotomy a b with h | rfl | h
    · exact .inl (.inl h)
    · exact ih.imp (fun h => .inr ⟨rfl, h⟩) fun h => .inr ⟨rfl, h⟩
    · exact .inr (.inl h)

/-! ## The language -/

theorem stateAt_of_numberOf? {k : Marking} {i : Nat} (h : g.numberOf? k = some i) :
    ∃ st, g.StateAt i st ∧ st.marking = k := by
  obtain ⟨hi, hk, _⟩ := List.findIdx?_eq_some_iff_getElem.1 h
  exact ⟨_, Array.getElem?_eq_getElem hi, of_decide_eq_true hk⟩

theorem numberOf?_eq_some_iff (h : explore n m limit = .ok g) {k : Marking} {i : Nat} :
    g.numberOf? k = some i ↔ ∃ st, g.StateAt i st ∧ st.marking = k := by
  refine ⟨stateAt_of_numberOf?, ?_⟩
  rintro ⟨st, hi, hk⟩
  obtain ⟨j, hj⟩ := Option.isSome_iff_exists.1 (contains_iff.2 ⟨i, st, hi, hk⟩)
  obtain ⟨st', hj', hk'⟩ := stateAt_of_numberOf? hj
  obtain ⟨s, rfl, hs, _, _⟩ := sound_of_explore h
  rw [hj, hs.eq_of_marking_eq hi hj' (hk.trans hk'.symm)]

theorem mem_visibleLanguage_iff {target : Marking} {l : List String} :
    l ∈ g.visibleLanguage target max ↔
      ∃ goal, g.numberOf? target = some goal ∧ g.HasTrail max ⟨goal, l⟩ := by
  unfold visibleLanguage
  cases g.numberOf? target with
  | none => simp
  | some goal =>
    simp only [List.mem_mergeSort, Option.some.injEq, exists_eq_left']
    exact (Walk.sound_start.run _).1 l

/-- Each sequence is answered once. -/
theorem nodup_visibleLanguage (g : StateGraph) (target : Marking) (max : Nat) :
    (g.visibleLanguage target max).Nodup := by
  unfold visibleLanguage
  cases g.numberOf? target with
  | none => exact .nil
  | some goal => exact (List.mergeSort_perm _ _).nodup_iff.2 (Walk.sound_start.run _).2

theorem pairwise_visibleLanguage (g : StateGraph) (target : Marking) (max : Nat) :
    (g.visibleLanguage target max).Pairwise (precedes · ·) := by
  unfold visibleLanguage
  cases g.numberOf? target with
  | none => exact .nil
  | some goal => exact List.pairwise_mergeSort precedes_trans precedes_total _

/-- `visibleLanguage` is exact: it has the label sequences, within the bound, of just those paths from
the first state that end in the state of the target, each sequence once and in order, and nothing if no
state has the target's marking. -/
theorem visibleLanguage_exact (h : explore n m limit = .ok g) (target : Marking) (max : Nat) :
    (∀ l, l ∈ g.visibleLanguage target max ↔
      l.length ≤ max ∧ ∃ goal st es, g.StateAt goal st ∧ st.marking = target ∧
        g.Path 0 es goal ∧ labels es = l) ∧
    (¬ g.Has target → g.visibleLanguage target max = []) ∧
    (g.visibleLanguage target max).Nodup ∧
    (g.visibleLanguage target max).Pairwise (precedes · ·) := by
  have hmem : ∀ l, l ∈ g.visibleLanguage target max ↔
      l.length ≤ max ∧ ∃ goal st es, g.StateAt goal st ∧ st.marking = target ∧
        g.Path 0 es goal ∧ labels es = l := by
    intro l
    rw [mem_visibleLanguage_iff]
    simp only [numberOf?_eq_some_iff h, HasTrail]
    constructor
    · rintro ⟨goal, ⟨st, hst, htarget⟩, hle, es, hpath⟩
      exact ⟨hle, goal, st, es, hst, htarget, hpath⟩
    · rintro ⟨hle, goal, st, es, hst, htarget, hpath⟩
      exact ⟨goal, ⟨st, hst, htarget⟩, hle, es, hpath⟩
  refine ⟨hmem, fun hnot => ?_, nodup_visibleLanguage g target max,
    pairwise_visibleLanguage g target max⟩
  refine List.eq_nil_iff_forall_not_mem.2 fun l hl => ?_
  obtain ⟨_, goal, st, _, hst, htarget, _⟩ := (hmem l).1 hl
  exact hnot ⟨goal, st, hst, htarget⟩

/-- A lamp that may blink, and that may fade without being noticed. -/
def lamp : Net where
  name := "lamp"
  places := ⟨[some { name := "lit" }]⟩
  transitions := ⟨[some { name := "blink", label := some "blink" }, some { name := "fade" }]⟩
  incidence := {
    arcs := [.input ⟨0⟩ ⟨0⟩, .output ⟨0⟩ ⟨0⟩, .input ⟨0⟩ ⟨1⟩, .output ⟨0⟩ ⟨1⟩]
    byPlace := ⟨[[(⟨0⟩, .input), (⟨0⟩, .output), (⟨1⟩, .input), (⟨1⟩, .output)]]⟩
    byTransition := ⟨[[(⟨0⟩, .input), (⟨0⟩, .output)], [(⟨0⟩, .input), (⟨0⟩, .output)]]⟩ }
  placeNames := ⟨[("lit", ⟨0⟩)]⟩
  transitionNames := ⟨[("blink", ⟨0⟩), ("fade", ⟨1⟩)]⟩

def lit : Marking := ⟨[(⟨0⟩, 1)]⟩

/-- Its state graph: a single state and two firings that lead back to it, one of them silent. -/
def lampGraph : StateGraph :=
  ⟨#[⟨lit, [⟨0⟩, ⟨1⟩]⟩], #[firing lamp 0 ⟨0⟩ 0, firing lamp 0 ⟨1⟩ 0], false⟩

theorem explore_lamp : explore lamp lit none = .ok lampGraph := by
  have hstart : (Search.start lamp lit).graph.StateAt 0 ⟨lit, [⟨0⟩, ⟨1⟩]⟩ :=
    Search.stateAt_addState.2 (.inr ⟨rfl, by decide⟩)
  have hnumber : (Search.start lamp lit).numbers[lit]? = some 0 := by
    rw [Search.numbers_start, if_pos rfl]
  have hfold : [⟨0⟩, ⟨1⟩].foldlM (Search.follow lamp none 0 lit) (Search.start lamp lit) =
      .ok (((Search.start lamp lit).addEdge (firing lamp 0 ⟨0⟩ 0)).addEdge
        (firing lamp 0 ⟨1⟩ 0)) := by
    have hblink : Search.follow lamp none 0 lit (Search.start lamp lit) ⟨0⟩ = _ :=
      Search.follow_known (by decide) hnumber
    have hfade : Search.follow lamp none 0 lit
        ((Search.start lamp lit).addEdge (firing lamp 0 ⟨0⟩ 0)) ⟨1⟩ = _ :=
      Search.follow_known (by decide) hnumber
    simp only [List.foldlM_cons, hblink, hfade, List.foldlM_nil, bind, Except.bind, pure,
      Except.pure]
  rw [explore, show maxStates = 4294967293 + 1 + 1 from rfl, Search.expand_succ hstart hfold,
    Search.expand]
  rfl

/-- It may blink twice and fade in between. -/
theorem lamp_blinks_twice : ["blink", "blink"] ∈ lampGraph.visibleLanguage lit 2 := by
  refine ((visibleLanguage_exact explore_lamp lit 2).1 _).2 ⟨by decide, 0, _,
    [firing lamp 0 ⟨0⟩ 0, firing lamp 0 ⟨1⟩ 0, firing lamp 0 ⟨0⟩ 0], rfl, rfl, ?_, by decide⟩
  have hblink : lampGraph.Path 0 [firing lamp 0 ⟨0⟩ 0] 0 :=
    Path.step (e := firing lamp 0 ⟨0⟩ 0) .stay (by decide)
  have hfade : lampGraph.Path 0 [firing lamp 0 ⟨0⟩ 0, firing lamp 0 ⟨1⟩ 0] 0 :=
    hblink.step (e := firing lamp 0 ⟨1⟩ 0) (by decide)
  exact hfade.step (e := firing lamp 0 ⟨0⟩ 0) (by decide)

end StateGraph

end ProcessNet
