/-
The state graph is exact. Its states are different markings that are reached from the initial one, it has
one edge for each firing between two of them and no other edges, and it is truncated just when some
marking that is reached is not among its states. With a limit it never has more states than that, except
for the first one, which is there in any case; without one, it has all markings that are reached.
-/
import ProcessNet.Proofs.StateSpace.Search

namespace ProcessNet

namespace StateGraph

variable {n : Net} {m : Marking} {limit : Option Nat} {g : StateGraph}

/-- The state graph of a net from `m` with at most `limit` states is as it should be. -/
structure Exact (n : Net) (m : Marking) (limit : Option Nat) (g : StateGraph) : Prop where
  first : g.StateAt 0 ⟨m, n.enabled m⟩
  enabled : ∀ i st, g.StateAt i st → st.enabled = n.enabled st.marking
  distinct : ∀ i j st st', g.StateAt i st → g.StateAt j st' →
    st.marking.tokens = st'.marking.tokens → i = j
  reached : ∀ k, g.Has k → n.Reaches m k
  /-- Every edge is a firing between its states. -/
  edges : ∀ e ∈ g.edges.toList, ∃ st st', g.StateAt e.source st ∧ g.StateAt e.target st' ∧
    n.fire st.marking e.transition = .ok st'.marking ∧ e = firing n e.source e.transition e.target
  /-- Every firing out of a state has one edge, unless its successor is left out. -/
  firings : ∀ i st, g.StateAt i st → ∀ t ∈ n.enabled st.marking,
    ∃ next, n.fire st.marking t = .ok next ∧
      ((∃ j st', g.StateAt j st' ∧ st'.marking = next ∧ g.edgesBy i t = [firing n i t j]) ∨
        (¬ g.Has next ∧ g.edgesBy i t = []))
  deadlocks : ∀ i, i ∈ g.deadlocks ↔ ∃ st, g.StateAt i st ∧ ∀ t, ¬ n.isEnabled t st.marking
  truncated : g.truncated ↔ ∃ k, n.Reaches m k ∧ ¬ g.Has k
  full : g.truncated → ∃ l ∈ limit, l ≤ g.states.size
  size : ∀ l ∈ limit, g.states.size ≤ max l 1

theorem mem_deadlocks {i : Nat} :
    i ∈ g.deadlocks ↔ ∃ st, g.StateAt i st ∧ st.enabled = [] := by
  unfold deadlocks
  simp only [List.mem_map, List.mem_filter, Prod.exists, List.mem_zipIdx_iff_getElem?,
    Array.getElem?_toList, List.isEmpty_iff]
  constructor
  · rintro ⟨st, _, ⟨hst, he⟩, rfl⟩
    exact ⟨st, hst, he⟩
  · rintro ⟨st, hst, he⟩
    exact ⟨st, i, ⟨hst, he⟩, rfl⟩

theorem enabled_eq_nil_iff {k : Marking} : n.enabled k = [] ↔ ∀ t, ¬ n.isEnabled t k := by
  rw [Net.enabled, List.filter_eq_nil_iff]
  refine ⟨fun h t ht => h t (Net.mem_transitionIds.2 (Bool.and_eq_true_iff.1 ht).1) ht,
    fun h t _ => h t⟩

namespace Search

variable {s : Search}

/-- A graph that is not truncated and tells of all firings has all that is reached. -/
theorem Sound.has_of_reaches (h : Sound n m limit s) (hcomplete : Complete n s.graph)
    (hopen : ¬ s.graph.truncated) {k : Marking} (hk : n.Reaches m k) : s.graph.Has k := by
  refine hk.induct ⟨0, _, h.first, rfl⟩ ?_
  rintro _ t k' ⟨i, st, hi, rfl⟩ hfire
  exact has_of_tells (hcomplete i st hi t (Net.fire_eq_ok_iff.1 hfire).1) hopen hfire

theorem Sound.exact (h : Sound n m limit s) (hcomplete : Complete n s.graph) (hm : m.Canonical) :
    Exact n m limit s.graph where
  first := h.first
  enabled := h.enabled
  distinct i j st st' hi hj he := by
    have hcanon : ∀ i st, s.graph.StateAt i st → st.marking.Canonical := fun i st hi =>
      Net.canonical_of_reaches hm (h.reached i st hi)
    exact h.eq_of_marking_eq hi hj
      ((hcanon i st hi).ext (hcanon j st' hj) fun p => congrFun he p)
  reached := by
    rintro _ ⟨i, st, hi, rfl⟩
    exact h.reached i st hi
  edges e he := by
    obtain ⟨st, hst, ht⟩ := h.edges e he
    have hmem : e ∈ s.graph.edgesBy e.source e.transition :=
      List.mem_filter.2 ⟨he, decide_eq_true ⟨rfl, rfl⟩⟩
    obtain ⟨next, hfire, ⟨j, st', hj, rfl, hedges⟩ | ⟨_, _, hedges⟩⟩ := hcomplete _ st hst _ ht
    · rw [hedges, List.mem_singleton] at hmem
      have htarget : e.target = j := congrArg Edge.target hmem
      exact ⟨st, st', hst, htarget ▸ hj, hfire, htarget ▸ hmem⟩
    · rw [hedges] at hmem
      cases hmem
  firings i st hi t ht := by
    obtain ⟨next, hfire, hnext⟩ := hcomplete i st hi t ht
    exact ⟨next, hfire, hnext.imp_right And.right⟩
  deadlocks i := by
    rw [mem_deadlocks]
    refine exists_congr fun st => and_congr_right fun hi => ?_
    rw [h.enabled i st hi, enabled_eq_nil_iff]
  truncated := by
    refine ⟨h.missing, ?_⟩
    rintro ⟨k, hk, hnot⟩
    by_contra hopen
    exact hnot (h.has_of_reaches hcomplete hopen hk)
  full := h.full
  size := h.limited

end Search

/-- A search comes to an end with all firings told and the states in order, or it fails as it has to. -/
theorem yields_explore (n : Net) (m : Marking) (limit : Option Nat) :
    Yields (fun g => ∃ s : Search, s.graph = g ∧ Search.Sound n m limit s ∧ Search.Complete n g ∧
      Ordered n m g) (Fails n m limit) (explore n m limit) := by
  have hstart : Search.Sound n m limit (Search.start n m) := Search.sound_start
  have hends := hstart.expand (Nat.zero_add _) Search.ordered_start
    (fun _ _ hi => absurd hi (Nat.not_lt_zero _)) fun _ _ _ => rfl
  unfold explore
  cases hs : Search.expand n limit maxStates 0 (Search.start n m) with
  | ok s =>
    rw [hs] at hends
    exact ⟨s, rfl, hends⟩
  | error f =>
    rw [hs] at hends
    exact hends

theorem sound_of_explore (h : explore n m limit = .ok g) :
    ∃ s : Search, s.graph = g ∧ Search.Sound n m limit s ∧ Search.Complete n g ∧ Ordered n m g := by
  have hyields := yields_explore n m limit
  rw [h] at hyields
  exact hyields

theorem exact_of_explore (hm : m.Canonical) (h : explore n m limit = .ok g) :
    Exact n m limit g := by
  obtain ⟨s, rfl, hs, hcomplete, _⟩ := sound_of_explore h
  exact hs.exact hcomplete hm

theorem Exact.has_iff (h : Exact n m limit g) (hopen : g.truncated = false) {k : Marking} :
    g.Has k ↔ n.Reaches m k :=
  ⟨h.reached k, fun hk => by_contra fun hnot =>
    Bool.eq_false_iff.1 hopen (h.truncated.2 ⟨k, hk, hnot⟩)⟩

/-- The state graph of `explore` is exact, whatever the net and the limit. There is one unless a count
overflows at a marking that is reached; beside that, only more states than can be numbered stand in the
way, which no limit up to that number allows. A graph that is not truncated has just the markings that
are reached. -/
theorem explore_exact (n : Net) (m : Marking) (limit : Option Nat) (hm : m.Canonical) :
    (∀ g, explore n m limit = .ok g → Exact n m limit g ∧
      (g.truncated = false → ∀ k, g.Has k ↔ n.Reaches m k)) ∧
    (∀ f, explore n m limit = .error f →
      (f = .countOverflow ∧ ∃ k t, n.Reaches m k ∧ t ∈ n.enabled k ∧
        n.successor k t = .error .countOverflow) ∨
      (f = .tooManyStates ∧ (∀ l ∈ limit, maxStates < l) ∧
        ∃ ks : List Marking, ks.Nodup ∧ maxStates < ks.length ∧ ∀ k ∈ ks, n.Reaches m k)) := by
  refine ⟨fun g hg => ?_, fun f hf => ?_⟩
  · have hexact := exact_of_explore hm hg
    exact ⟨hexact, fun hopen k => hexact.has_iff hopen⟩
  · have hyields := yields_explore n m limit
    rw [hf] at hyields
    exact hyields

/-- A transition that can fire again and again, each time into the same place. -/
def spring : Net where
  name := "spring"
  places := ⟨[some { name := "basin" }]⟩
  transitions := ⟨[some { name := "flow", label := some "flow" }]⟩
  incidence := {
    arcs := [.output ⟨0⟩ ⟨0⟩]
    byPlace := ⟨[[(⟨0⟩, .output)]]⟩
    byTransition := ⟨[[(⟨0⟩, .output)]]⟩ }
  placeNames := ⟨[("basin", ⟨0⟩)]⟩
  transitionNames := ⟨[("flow", ⟨0⟩)]⟩

/-- Its state graph with a single state. -/
def springGraph : StateGraph := ⟨#[⟨∅, [⟨0⟩]⟩], #[], true⟩

theorem explore_spring : explore spring ∅ (some 1) = .ok springGraph := by
  have hfirst : (Search.start spring ∅).graph.StateAt 0 ⟨∅, [⟨0⟩]⟩ :=
    Search.stateAt_addState.2 (.inr ⟨rfl, by decide⟩)
  have hnew : (Search.start spring ∅).numbers[(⟨[(⟨0⟩, 1)]⟩ : Marking)]? = none := by
    rw [Search.numbers_start, if_neg (by decide)]
  have hfold : [⟨0⟩].foldlM (Search.follow spring (some 1) 0 ∅) (Search.start spring ∅) =
      .ok ⟨springGraph, (Search.start spring ∅).numbers⟩ := by
    have hfollow : Search.follow spring (some 1) 0 ∅ (Search.start spring ∅) ⟨0⟩ = _ :=
      Search.follow_refused (by decide) hnew ⟨1, rfl, Nat.le_refl 1⟩
    simp only [List.foldlM_cons, hfollow, List.foldlM_nil, bind, Except.bind, pure, Except.pure]
    rfl
  rw [explore, show maxStates = 4294967293 + 1 + 1 from rfl, Search.expand_succ hfirst hfold]
  rfl

/-- What is left out for the limit is reached all the same. -/
theorem springGraph_exact : ∃ k, spring.Reaches ∅ k ∧ ¬ springGraph.Has k :=
  ((explore_exact spring ∅ (some 1) Marking.canonical_empty).1 _ explore_spring).1.truncated.1 rfl

end StateGraph

/-! ## Without a limit -/

/-- The markings with the property `P` lead nowhere else, and no count overflows on the way. -/
def Net.Closed (n : Net) (P : Marking → Prop) : Prop :=
  ∀ k, P k → ∀ t ∈ n.enabled k, ∃ k', n.successor k t = .ok k' ∧ P k'

/-- Whatever is reachable from a closed set is in it. -/
theorem Net.Closed.exists_of_reachable {n : Net} (hn : n.incidence.Mirrored) {P : Marking → Prop}
    (h : n.Closed P) {m : Marking} (hm : P m) {x : Tokens} (hx : n.Reachable m.tokens x) :
    ∃ k, P k ∧ k.tokens = x := by
  have hrun : ∀ y z ts, n.Run y ts z → (∃ k, P k ∧ k.tokens = y) → ∃ k, P k ∧ k.tokens = z := by
    intro y z ts hrun
    induction hrun with
    | stay => exact fun hy => hy
    | @fire y z t ts he _ ih =>
      rintro ⟨k, hk, rfl⟩
      have ht : t ∈ n.enabled k :=
        List.mem_filter.2 ⟨Net.mem_transitionIds.2 he.live, (Net.isEnabled_iff hn).2 he⟩
      obtain ⟨k', hsucc, hk'⟩ := h k hk t ht
      exact ih ⟨k', hk', Net.tokens_successor hn hsucc⟩
  obtain ⟨ts, hts⟩ := hx
  exact hrun _ _ _ hts ⟨m, hm, rfl⟩

theorem Net.Closed.of_reaches {n : Net} {P : Marking → Prop} (h : n.Closed P) {m k : Marking}
    (hm : P m) (hk : n.Reaches m k) : P k := by
  refine hk.induct hm fun k t k' hP hfire => ?_
  obtain ⟨ht, hsucc⟩ := fire_eq_ok_iff.1 hfire
  obtain ⟨k'', hsucc', hP'⟩ := h k hP t ht
  cases hsucc.symm.trans hsucc'
  exact hP'

namespace StateGraph

variable {n : Net} {m : Marking} {g : StateGraph}

/-- Without a limit the markings of the states are just those that are reached. -/
theorem Exact.has_iff_reaches (h : Exact n m none g) {k : Marking} : g.Has k ↔ n.Reaches m k := by
  refine h.has_iff (Bool.eq_false_iff.2 fun htrunc => ?_)
  obtain ⟨l, hl, _⟩ := h.full htrunc
  cases hl

theorem Exact.closed (h : Exact n m none g) : n.Closed (n.Reaches m) := by
  intro k hk t ht
  obtain ⟨i, st, hi, rfl⟩ := h.has_iff_reaches.2 hk
  obtain ⟨next, hfire, _⟩ := h.firings i st hi t ht
  exact ⟨next, (Net.fire_eq_ok_iff.1 hfire).2, hk.tail hfire⟩

theorem contains_iff {k : Marking} : g.contains k ↔ g.Has k := by
  unfold contains numberOf?
  rw [List.findIdx?_isSome, List.any_eq_true, has_iff_mem, List.mem_map]
  exact exists_congr fun st => and_congr_right fun _ => decide_eq_true_iff

/-- A search without a limit that ends has met just the reachable markings. -/
theorem contains_iff_reachable (hn : n.incidence.Mirrored) (hm : m.Canonical)
    (h : explore n m none = .ok g) {k : Marking} (hk : k.Canonical) :
    g.contains k ↔ n.Reachable m.tokens k.tokens := by
  have hexact := exact_of_explore hm h
  rw [contains_iff, hexact.has_iff_reaches]
  constructor
  · rintro ⟨ts, hts⟩
    exact ⟨ts, Net.run_of_foldlM_fire hn hts⟩
  · intro hx
    obtain ⟨k', hk', he⟩ := hexact.closed.exists_of_reachable hn (.refl n m) hx
    have hsame := (Net.canonical_of_reaches hm hk').ext hk fun p => congrFun he p
    exact hsame ▸ hk'

/-- If the search ends, no reachable marking holds more tokens on a place than a count can tell. -/
theorem le_maxCount_of_explore (hn : n.incidence.Mirrored) (hm : m.Canonical)
    (hstore : m.Storable) (h : explore n m none = .ok g) {x : Tokens}
    (hx : n.Reachable m.tokens x) (p : PlaceId) : x p ≤ maxCount := by
  obtain ⟨k, hk, rfl⟩ := (exact_of_explore hm h).closed.exists_of_reachable hn (.refl n m) hx
  exact Net.storable_of_reaches hstore hk p

/-- The search ends if the initial marking is one of a few that lead nowhere else. -/
theorem exists_explore {l : List Marking} (hm : m ∈ l) (hclosed : n.Closed (· ∈ l))
    (hmax : l.length ≤ maxStates) : ∃ g, explore n m none = .ok g := by
  have hyields := yields_explore n m none
  cases hg : explore n m none with
  | ok g => exact ⟨g, rfl⟩
  | error f =>
    rw [hg] at hyields
    rcases hyields with ⟨_, k, t, hk, ht, herror⟩ | ⟨_, _, ks, hnodup, hlength, hks⟩
    · obtain ⟨k', hsucc, _⟩ := hclosed k (hclosed.of_reaches hm hk) t ht
      cases herror.symm.trans hsucc
    · have hle := (hnodup.subperm fun k hk => hclosed.of_reaches hm (hks k hk)).length_le
      omega

end StateGraph

end ProcessNet
