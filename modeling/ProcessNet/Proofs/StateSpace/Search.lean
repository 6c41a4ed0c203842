/-
The breadth-first search. Its graph tells what comes of each firing out of the states that it has worked
on: one edge leads to the state of the successor, or the successor is left out because the limit is
reached. From then on no state is added any more, so what is left out stays out.

States are added in the order of the lengths of the shortest runs to them. What is nearer than a new state
has been met before: the marking in front of it on a shortest run is nearer than the state that is worked
on, so it is a state in front of that one, and all firings out of those have been followed.
-/
import ProcessNet.Proofs.Marking.Storable
import ProcessNet.Proofs.Net.Consistent
import ProcessNet.Proofs.Outcome
import ProcessNet.Net.TokenGame
import ProcessNet.StateSpace.Basic

namespace ProcessNet

/-! ## Firings one after the other -/

namespace Net

/-- Some transitions fire one after the other from `m` on and lead to `k`. -/
def Reaches (n : Net) (m k : Marking) : Prop := ∃ ts : List TransitionId, ts.foldlM n.fire m = .ok k

variable {n : Net} {m k k' : Marking} {t : TransitionId}

theorem Reaches.refl (n : Net) (m : Marking) : n.Reaches m m := ⟨[], rfl⟩

theorem foldlM_fire_concat {ts : List TransitionId} : (ts ++ [t]).foldlM n.fire m = .ok k' ↔
    ∃ k, ts.foldlM n.fire m = .ok k ∧ n.fire k t = .ok k' := by
  rw [List.foldlM_append, except_bind_eq_ok]
  simp only [List.foldlM_cons, List.foldlM_nil, bind_pure]

theorem Reaches.tail (h : n.Reaches m k) (ht : n.fire k t = .ok k') : n.Reaches m k' :=
  h.imp' (· ++ [t]) fun _ hts => foldlM_fire_concat.2 ⟨k, hts, ht⟩

/-- What firing keeps holds of all that is reached. -/
theorem Reaches.induct {P : Marking → Prop} (h : n.Reaches m k) (hm : P m)
    (hstep : ∀ k t k', P k → n.fire k t = .ok k' → P k') : P k := by
  obtain ⟨ts, hts⟩ := h
  induction ts generalizing m with
  | nil =>
    cases hts
    exact hm
  | cons t ts ih =>
    rw [List.foldlM_cons] at hts
    obtain ⟨m₁, hfire, hts⟩ := except_bind_eq_ok.1 hts
    exact ih (hstep m t m₁ hm hfire) hts

/-- A run of this many firings leads from `m` to `k`. -/
def ReachesIn (n : Net) (m k : Marking) (length : Nat) : Prop :=
  ∃ ts : List TransitionId, ts.length = length ∧ ts.foldlM n.fire m = .ok k

theorem Reaches.exists_reachesIn (h : n.Reaches m k) : ∃ length, n.ReachesIn m k length :=
  h.imp' List.length fun _ hts => ⟨_, rfl, hts⟩

theorem ReachesIn.eq (h : n.ReachesIn m k 0) : m = k := by
  obtain ⟨ts, hlength, hts⟩ := h
  rw [List.length_eq_zero_iff.1 hlength] at hts
  exact Except.ok.inj hts

theorem ReachesIn.tail {length : Nat} (h : n.ReachesIn m k length) (ht : n.fire k t = .ok k') :
    n.ReachesIn m k' (length + 1) := by
  obtain ⟨ts, rfl, hts⟩ := h
  exact ⟨ts ++ [t], List.length_append, foldlM_fire_concat.2 ⟨k, hts, ht⟩⟩

theorem ReachesIn.exists_last {length : Nat} (h : n.ReachesIn m k' (length + 1)) :
    ∃ k t, n.ReachesIn m k length ∧ n.fire k t = .ok k' := by
  obtain ⟨ts, hlength, hts⟩ := h
  rcases List.eq_nil_or_concat ts with rfl | ⟨ts, t, rfl⟩
  · cases hlength
  · rw [List.concat_eq_append] at hlength hts
    obtain ⟨k, hk, ht⟩ := foldlM_fire_concat.1 hts
    rw [List.length_append, List.length_singleton] at hlength
    exact ⟨k, t, ⟨ts, Nat.succ.inj hlength, hk⟩, ht⟩

/-- Some run to `k` is shorter than all runs to `k'`. -/
def Nearer (n : Net) (m k k' : Marking) : Prop :=
  ∃ length, n.ReachesIn m k length ∧ ∀ length', n.ReachesIn m k' length' → length < length'

/-- Before a marking that is nearer than the next one after `k` comes, unless it is the initial one,
a marking that is nearer than `k`. -/
theorem Nearer.eq_or_exists_last {next : Marking} (h : n.Nearer m k' next)
    (hnext : n.fire k t = .ok next) :
    k' = m ∨ ∃ k₁ t₁, n.Nearer m k₁ k ∧ n.fire k₁ t₁ = .ok k' := by
  obtain ⟨length, hlength, hshorter⟩ := h
  cases length with
  | zero => exact .inl hlength.eq.symm
  | succ length =>
    obtain ⟨k₁, t₁, hk₁, ht₁⟩ := hlength.exists_last
    exact .inr ⟨k₁, t₁, ⟨length, hk₁, fun length' h' =>
      Nat.lt_of_succ_lt_succ (hshorter _ (h'.tail hnext))⟩, ht₁⟩

/-- To `fire` is to be enabled and to have a successor. -/
theorem fire_eq_ok_iff : n.fire m t = .ok k ↔ t ∈ n.enabled m ∧ n.successor m t = .ok k := by
  have hmem : t ∈ n.enabled m ↔ n.isEnabled t m :=
    List.mem_filter.trans (and_iff_right_of_imp fun he =>
      mem_transitionIds.2 (Bool.and_eq_true_iff.1 he).1)
  rw [hmem]
  unfold fire
  cases he : n.isEnabled t m with
  | false => split <;> simp
  | true =>
    have hlive : n.hasTransition t = true := (Bool.and_eq_true_iff.1 he).1
    rw [hlive]
    cases n.successor m t <;> simp

theorem canonical_of_reaches (hm : m.Canonical) (h : n.Reaches m k) : k.Canonical :=
  h.induct hm fun _ _ _ hk hfire => canonical_successor hk (fire_eq_ok_iff.1 hfire).2

theorem storable_of_reaches (hm : m.Storable) (h : n.Reaches m k) : k.Storable :=
  h.induct hm fun _ _ _ hk hfire => storable_successor hk (fire_eq_ok_iff.1 hfire).2

end Net

/-! ## What a graph tells -/

namespace StateGraph

/-- The state with the number `i` is `st`. -/
abbrev StateAt (g : StateGraph) (i : Nat) (st : State) : Prop := g.states[i]? = some st

/-- Some state has this marking. -/
def Has (g : StateGraph) (k : Marking) : Prop := ∃ i st, g.StateAt i st ∧ st.marking = k

/-- The edges for a transition out of a state. -/
def edgesBy (g : StateGraph) (i : Nat) (t : TransitionId) : List Edge :=
  g.edges.toList.filter fun e => e.source = i ∧ e.transition = t

/-- The edge that tells of a firing between two states. -/
def firing (n : Net) (source : Nat) (t : TransitionId) (target : Nat) : Edge where
  source
  target
  transition := t
  name := n.transitionName t
  label := n.label? t

/-- The graph tells what comes of firing `t` out of the state `i` with the marking `k`: one edge leads
to the successor, or the graph is truncated and has no edge because no state has this marking. -/
def Tells (g : StateGraph) (n : Net) (i : Nat) (k : Marking) (t : TransitionId) : Prop :=
  ∃ next, n.fire k t = .ok next ∧
    ((∃ j st, g.StateAt j st ∧ st.marking = next ∧ g.edgesBy i t = [firing n i t j]) ∨
      (g.truncated ∧ ¬ g.Has next ∧ g.edgesBy i t = []))

/-- What is nearer to the initial marking than a state comes in front of it. -/
def Ordered (n : Net) (m : Marking) (g : StateGraph) : Prop :=
  ∀ i st k, g.StateAt i st → n.Nearer m k st.marking →
    ∃ j st', j < i ∧ g.StateAt j st' ∧ st'.marking = k

/-- States keep their numbers, and a truncated graph gets no more of them. -/
structure Grows (g g' : StateGraph) : Prop where
  states : ∀ i st, g.StateAt i st → g'.StateAt i st
  full : g.truncated → g'.truncated ∧ g'.states = g.states

variable {g g' g'' : StateGraph} {n : Net} {m : Marking}

theorem StateAt.lt {i : Nat} {st : State} (h : g.StateAt i st) : i < g.states.size :=
  (Array.getElem?_eq_some_iff.1 h).1

theorem StateAt.unique {i : Nat} {st st' : State} (h : g.StateAt i st) (h' : g.StateAt i st') :
    st = st' :=
  Option.some.inj (h.symm.trans h')

theorem has_iff_mem {k : Marking} : g.Has k ↔ k ∈ g.states.toList.map State.marking := by
  rw [List.mem_map]
  constructor
  · rintro ⟨i, st, hi, hk⟩
    rw [StateAt, ← Array.getElem?_toList] at hi
    exact ⟨st, List.mem_of_getElem? hi, hk⟩
  · rintro ⟨st, hst, hk⟩
    obtain ⟨i, hi⟩ := List.mem_iff_getElem?.1 hst
    exact ⟨i, st, by rw [StateAt, ← Array.getElem?_toList]; exact hi, hk⟩

theorem Grows.refl (g : StateGraph) : Grows g g := ⟨fun _ _ h => h, fun h => ⟨h, rfl⟩⟩

theorem Grows.trans (h : Grows g g') (k : Grows g' g'') : Grows g g'' :=
  ⟨fun i st hi => k.states i st (h.states i st hi), fun hg =>
    ⟨(k.full (h.full hg).1).1, (k.full (h.full hg).1).2.trans (h.full hg).2⟩⟩

/-- What is told stays told. -/
theorem Grows.tells (h : Grows g g') {i : Nat} {k : Marking} {t : TransitionId}
    (hedges : g'.edgesBy i t = g.edgesBy i t) (ht : g.Tells n i k t) : g'.Tells n i k t := by
  obtain ⟨next, hfire, hnext⟩ := ht
  refine ⟨next, hfire, ?_⟩
  rw [hedges]
  rcases hnext with ⟨j, st, hj, hst, he⟩ | ⟨htrunc, hnot, he⟩
  · exact .inl ⟨j, st, h.states j st hj, hst, he⟩
  · obtain ⟨htrunc', hstates⟩ := h.full htrunc
    refine .inr ⟨htrunc', fun ⟨j, st, hj, hst⟩ => hnot ⟨j, st, ?_, hst⟩, he⟩
    rw [StateAt, ← hstates]
    exact hj

/-- New states that come next after the state with the given number are in order, if all that comes next
after the states in front of it is there. -/
theorem Ordered.of_grows {number : Nat} {st : State} (h : Ordered n m g) (hgrows : Grows g g')
    (hfirst : g.Has m) (hst : g.StateAt number st)
    (hfront : ¬ g.truncated → ∀ i st₁, i < number → g.StateAt i st₁ → ∀ t k,
      n.fire st₁.marking t = .ok k → g.Has k)
    (hnew : ∀ i st', g'.StateAt i st' → g.StateAt i st' ∨
      (¬ g.truncated ∧ ∃ t, n.fire st.marking t = .ok st'.marking)) : Ordered n m g' := by
  have hold : ∀ i st₁ k, g.StateAt i st₁ → n.Nearer m k st₁.marking →
      ∃ j st', j < i ∧ g'.StateAt j st' ∧ st'.marking = k := by
    intro i st₁ k hi hk
    obtain ⟨j, st', hlt, hj, hmark⟩ := h i st₁ k hi hk
    exact ⟨j, st', hlt, hgrows.states j st' hj, hmark⟩
  intro i st' k hi hk
  rcases hnew i st' hi with hi | ⟨hopen, t, hfire⟩
  · exact hold i st' k hi hk
  by_cases hlt : i < g.states.size
  · have hget : g.StateAt i _ := Array.getElem?_eq_getElem hlt
    rw [← (hgrows.states i _ hget).unique hi] at hk
    exact hold i _ k hget hk
  · -- the marking is there already, being the first one or next after a state in front
    have hthere : g.Has k := by
      rcases hk.eq_or_exists_last hfire with rfl | ⟨k₁, t₁, hk₁, hfire₁⟩
      · exact hfirst
      · obtain ⟨j, st₁, hj, hst₁, rfl⟩ := h number st k₁ hst hk₁
        exact hfront hopen j st₁ hj hst₁ t₁ k hfire₁
    obtain ⟨j, st₁, hj, hmark⟩ := hthere
    exact ⟨j, st₁, Nat.lt_of_lt_of_le hj.lt (Nat.le_of_not_lt hlt), hgrows.states j st₁ hj, hmark⟩

/-- A search fails only where a count overflows or where more states are reached than can be numbered,
and no limit keeps it from that. -/
def Fails (n : Net) (m : Marking) (limit : Option Nat) (f : Fault) : Prop :=
  (f = .countOverflow ∧ ∃ k t, n.Reaches m k ∧ t ∈ n.enabled k ∧
    n.successor k t = .error .countOverflow) ∨
  (f = .tooManyStates ∧ (∀ l ∈ limit, maxStates < l) ∧
    ∃ ks : List Marking, ks.Nodup ∧ maxStates < ks.length ∧ ∀ k ∈ ks, n.Reaches m k)

end StateGraph

namespace StateGraph.Search

variable {n : Net} {m : Marking} {limit : Option Nat} {s s' : Search}

/-! ## The invariant -/

/-- What holds of a search from `m` at any time. -/
structure Sound (n : Net) (m : Marking) (limit : Option Nat) (s : Search) : Prop where
  first : s.graph.StateAt 0 ⟨m, n.enabled m⟩
  enabled : ∀ i st, s.graph.StateAt i st → st.enabled = n.enabled st.marking
  reached : ∀ i st, s.graph.StateAt i st → n.Reaches m st.marking
  numbers : ∀ k i, s.numbers[k]? = some i ↔ ∃ st, s.graph.StateAt i st ∧ st.marking = k
  edges : ∀ e ∈ s.graph.edges.toList, ∃ st, s.graph.StateAt e.source st ∧
    e.transition ∈ n.enabled st.marking
  missing : s.graph.truncated → ∃ k, n.Reaches m k ∧ ¬ s.graph.Has k
  full : s.graph.truncated → ∃ l ∈ limit, l ≤ s.graph.states.size
  size : s.graph.states.size ≤ maxStates
  limited : ∀ l ∈ limit, s.graph.states.size ≤ max l 1

theorem Sound.numbers_eq_none (h : Sound n m limit s) {k : Marking} (hk : s.numbers[k]? = none) :
    ¬ s.graph.Has k := by
  rintro ⟨i, st, hi, hst⟩
  exact Option.some_ne_none i (((h.numbers k i).2 ⟨st, hi, hst⟩).symm.trans hk)

/-- Different states have different markings. -/
theorem Sound.eq_of_marking_eq (h : Sound n m limit s) {i j : Nat} {st st' : State}
    (hi : s.graph.StateAt i st) (hj : s.graph.StateAt j st') (he : st.marking = st'.marking) :
    i = j :=
  Option.some.inj (((h.numbers st.marking i).2 ⟨st, hi, rfl⟩).symm.trans
    ((h.numbers st.marking j).2 ⟨st', hj, he.symm⟩))

theorem Sound.nodup (h : Sound n m limit s) :
    (s.graph.states.toList.map State.marking).Nodup := by
  refine List.nodup_iff_getElem?_ne_getElem?.2 fun i j hij hj he => ?_
  rw [List.length_map, Array.length_toList] at hj
  have hi : i < s.graph.states.size := Nat.lt_trans hij hj
  rw [List.getElem?_map, List.getElem?_map, Array.getElem?_toList, Array.getElem?_toList,
    Array.getElem?_eq_getElem hi, Array.getElem?_eq_getElem hj] at he
  exact Nat.ne_of_lt hij (h.eq_of_marking_eq (Array.getElem?_eq_getElem hi)
    (Array.getElem?_eq_getElem hj) (Option.some.inj he))

theorem stateAt_addState {k : Marking} {i : Nat} {st : State} :
    (s.addState n k).graph.StateAt i st ↔
      s.graph.StateAt i st ∨ (i = s.graph.states.size ∧ st = ⟨k, n.enabled k⟩) := by
  simp only [StateAt, addState, Array.getElem?_push]
  split
  · rename_i hi
    rw [hi, Array.getElem?_eq_none (Nat.le_refl _)]
    simp [eq_comm]
  · rename_i hi
    simp [hi]

theorem numbers_addState {k l : Marking} : (s.addState n k).numbers[l]? =
    if k = l then some s.graph.states.size else s.numbers[l]? := by
  simp only [addState, Std.HashMap.getElem?_insert, beq_iff_eq]

theorem numbers_start {k : Marking} :
    (start n m).numbers[k]? = if m = k then some 0 else none := by
  rw [start, numbers_addState, Std.HashMap.getElem?_empty]
  rfl

theorem Sound.not_truncated (h : Sound n m limit s)
    (hlimit : ∀ l ∈ limit, s.graph.states.size < l) : ¬ s.graph.truncated := by
  intro htrunc
  obtain ⟨l, hl, hle⟩ := h.full htrunc
  exact Nat.not_lt_of_le hle (hlimit l hl)

/-- `addState` with what is reached keeps the invariant, as long as the graph is not truncated. -/
theorem Sound.addState (h : Sound n m limit s) {k : Marking} (hnew : s.numbers[k]? = none)
    (hreach : n.Reaches m k) (hsize : s.graph.states.size < maxStates)
    (hlimit : ∀ l ∈ limit, s.graph.states.size < l) : Sound n m limit (s.addState n k) := by
  -- the search still adds states, so nothing has been left out so far
  have hopen := h.not_truncated hlimit
  refine {
    first := stateAt_addState.2 (.inl h.first)
    enabled := fun i st hi => ?enabled
    reached := fun i st hi => ?reached
    numbers := fun l i => ?numbers
    edges := fun e he => ?edges
    missing := fun htrunc => absurd htrunc hopen
    full := fun htrunc => absurd htrunc hopen
    size := ?size
    limited := fun l hl => ?limited }
  case enabled =>
    rcases stateAt_addState.1 hi with hi | ⟨_, rfl⟩
    · exact h.enabled i st hi
    · rfl
  case reached =>
    rcases stateAt_addState.1 hi with hi | ⟨_, rfl⟩
    · exact h.reached i st hi
    · exact hreach
  case numbers =>
    simp only [stateAt_addState, or_and_right, exists_or, ← h.numbers]
    simp only [Search.addState, Std.HashMap.getElem?_insert]
    split
    · rename_i hk
      cases eq_of_beq hk
      simp [hnew, eq_comm]
    · rename_i hk
      have hne : k ≠ l := fun he => hk (beq_iff_eq.2 he)
      refine (or_iff_left ?_).symm
      rintro ⟨st, ⟨_, rfl⟩, hst⟩
      exact hne hst
  case edges =>
    obtain ⟨st, hst, ht⟩ := h.edges e he
    exact ⟨st, stateAt_addState.2 (.inl hst), ht⟩
  case size =>
    simp only [Search.addState, Array.size_push]
    omega
  case limited =>
    have := hlimit l hl
    simp only [Search.addState, Array.size_push]
    omega

theorem Sound.addEdge (h : Sound n m limit s) {e : Edge}
    (he : ∃ st, s.graph.StateAt e.source st ∧ e.transition ∈ n.enabled st.marking) :
    Sound n m limit (s.addEdge e) := by
  refine ⟨h.first, h.enabled, h.reached, h.numbers, fun e' he' => ?_, h.missing, h.full, h.size,
    h.limited⟩
  simp only [Search.addEdge, Array.toList_push, List.mem_append, List.mem_singleton] at he'
  rcases he' with he' | rfl
  · exact h.edges e' he'
  · exact he

theorem sound_start : Sound n m limit (start n m) := by
  have hone : ∀ i st, (start n m).graph.StateAt i st ↔ i = 0 ∧ st = ⟨m, n.enabled m⟩ := by
    intro i st
    refine stateAt_addState.trans (or_iff_right fun hi => ?_)
    exact absurd (StateAt.lt hi) (Nat.not_lt_zero i)
  refine ⟨(hone _ _).2 ⟨rfl, rfl⟩, fun i st hi => ?_, fun i st hi => ?_, fun k i => ?_,
    fun e he => ?_, nofun, nofun, ?_, fun l _ => ?_⟩
  · rw [((hone i st).1 hi).2]
  · rw [((hone i st).1 hi).2]
    exact .refl n m
  · simp only [hone]
    simp only [start, addState, Std.HashMap.getElem?_insert]
    split
    · rename_i hk
      cases eq_of_beq hk
      simp [eq_comm]
    · rename_i hk
      have hne : m ≠ k := fun he => hk (beq_iff_eq.2 he)
      simp [hne]
  · cases he
  · simp [start, addState, maxStates]
  · simp [start, addState]

/-- The only state is the first one, and nothing is nearer than that. -/
theorem ordered_start : Ordered n m (start n m).graph := by
  intro i st k hi hk
  rcases stateAt_addState.1 hi with hi | ⟨_, rfl⟩
  · exact absurd (StateAt.lt hi) (Nat.not_lt_zero i)
  · obtain ⟨_, _, hshorter⟩ := hk
    exact absurd (hshorter 0 ⟨[], rfl, rfl⟩) (Nat.not_lt_zero _)

/-! ## Working on states -/

section Following

variable {source : Nat} {k next : Marking} {t : TransitionId}

theorem follow_known {target : Nat} (hsucc : n.successor k t = .ok next)
    (hnumber : s.numbers[next]? = some target) :
    follow n limit source k s t = .ok (s.addEdge (firing n source t target)) := by
  simp only [follow, hsucc, hnumber, bind, Except.bind]
  rfl

theorem follow_refused (hsucc : n.successor k t = .ok next) (hnumber : s.numbers[next]? = none)
    (hfull : ∃ l ∈ limit, l ≤ s.graph.states.size) :
    follow n limit source k s t = .ok { s with graph := { s.graph with truncated := true } } := by
  have hany : limit.any (fun l => decide (l ≤ s.graph.states.size)) = true := by
    obtain ⟨l, hl, hle⟩ := hfull
    exact (Option.any_eq_true ..).2 ⟨l, hl, decide_eq_true hle⟩
  simp only [follow, hsucc, hnumber, bind, Except.bind, hany]
  rfl

theorem full_or_open (limit : Option Nat) (size : Nat) :
    (∃ l ∈ limit, l ≤ size) ∨ ∀ l ∈ limit, size < l := by
  rw [or_iff_not_imp_left]
  exact fun h l hl => Nat.lt_of_not_le fun hle => h ⟨l, hl, hle⟩

theorem any_le_eq_false {size : Nat} (h : ∀ l ∈ limit, size < l) :
    limit.any (fun l => decide (l ≤ size)) = false := by
  rw [← Bool.not_eq_true, Option.any_eq_true]
  exact fun ⟨l, hl, hle⟩ => Nat.not_le_of_lt (h l hl) (of_decide_eq_true hle)

theorem follow_added (hsucc : n.successor k t = .ok next) (hnumber : s.numbers[next]? = none)
    (hopen : ∀ l ∈ limit, s.graph.states.size < l) (hsize : s.graph.states.size < maxStates) :
    follow n limit source k s t =
      .ok ((s.addState n next).addEdge (firing n source t s.graph.states.size)) := by
  simp only [follow, hsucc, hnumber, bind, Except.bind, any_le_eq_false hopen, Nat.not_le.2 hsize]
  rfl

theorem follow_overfull (hsucc : n.successor k t = .ok next) (hnumber : s.numbers[next]? = none)
    (hopen : ∀ l ∈ limit, s.graph.states.size < l) (hsize : maxStates ≤ s.graph.states.size) :
    follow n limit source k s t = .error .tooManyStates := by
  simp only [follow, hsucc, hnumber, bind, Except.bind, any_le_eq_false hopen, hsize]
  rfl

/-- `follow` deals with a firing in these three ways. -/
theorem follow_eq_ok (h : follow n limit source k s t = .ok s') :
    ∃ next, n.successor k t = .ok next ∧
      ((∃ target, s.numbers[next]? = some target ∧ s' = s.addEdge (firing n source t target)) ∨
        (s.numbers[next]? = none ∧ (∃ l ∈ limit, l ≤ s.graph.states.size) ∧
          s' = { s with graph := { s.graph with truncated := true } }) ∨
        (s.numbers[next]? = none ∧ (∀ l ∈ limit, s.graph.states.size < l) ∧
          s.graph.states.size < maxStates ∧
          s' = (s.addState n next).addEdge (firing n source t s.graph.states.size))) := by
  cases hsucc : n.successor k t with
  | error f =>
    rw [follow, hsucc] at h
    cases h
  | ok next =>
    refine ⟨next, rfl, ?_⟩
    cases hnumber : s.numbers[next]? with
    | some target =>
      rw [follow_known hsucc hnumber] at h
      exact .inl ⟨target, rfl, (Except.ok.inj h).symm⟩
    | none =>
      rcases full_or_open limit s.graph.states.size with hfull | hopen
      · rw [follow_refused hsucc hnumber hfull] at h
        exact .inr (.inl ⟨rfl, hfull, (Except.ok.inj h).symm⟩)
      · rcases Nat.lt_or_ge s.graph.states.size maxStates with hsize | hsize
        · rw [follow_added hsucc hnumber hopen hsize] at h
          exact .inr (.inr ⟨rfl, hopen, hsize, (Except.ok.inj h).symm⟩)
        · rw [follow_overfull hsucc hnumber hopen hsize] at h
          cases h

theorem expand_succ {fuel number : Nat} {st : State} (hst : s.graph.StateAt number st)
    (hfold : st.enabled.foldlM (follow n limit number st.marking) s = .ok s') :
    expand n limit (fuel + 1) number s = expand n limit fuel (number + 1) s' := by
  rw [expand, hst]
  dsimp only
  rw [hfold]
  rfl

end Following

theorem edgesBy_addEdge {e : Edge} {i : Nat} {t : TransitionId} :
    (s.addEdge e).graph.edgesBy i t =
      s.graph.edgesBy i t ++ if e.source = i ∧ e.transition = t then [e] else [] := by
  simp only [edgesBy, addEdge, Array.toList_push, List.filter_append, List.filter_singleton,
    Bool.cond_decide]

/-- What it comes to to follow the firing of `t` out of a state: it is told, and of other firings the
graph has the same edges as before. A new state is the one that the firing leads to. -/
structure Followed (n : Net) (m : Marking) (limit : Option Nat) (source : Nat) (k : Marking)
    (t : TransitionId) (s s' : Search) : Prop where
  sound : Sound n m limit s'
  grows : Grows s.graph s'.graph
  tells : s'.graph.Tells n source k t
  added : ∀ i st, s'.graph.StateAt i st → s.graph.StateAt i st ∨
    (¬ s.graph.truncated ∧ n.fire k t = .ok st.marking)
  others : ∀ i u, ¬ (i = source ∧ u = t) → s'.graph.edgesBy i u = s.graph.edgesBy i u

/-- An edge to a state with the marking of the successor tells of a firing. -/
theorem followed_of_addEdge {source j : Nat} {k next : Marking} {t : TransitionId} {st st' : State}
    (h : Sound n m limit s') (hgrows : Grows s.graph s'.graph)
    (hadded : ∀ i st, s'.graph.StateAt i st → s.graph.StateAt i st ∨
      (¬ s.graph.truncated ∧ n.fire k t = .ok st.marking))
    (hedges : ∀ i u, s'.graph.edgesBy i u = s.graph.edgesBy i u)
    (hst : s'.graph.StateAt source st) (hk : st.marking = k) (ht : t ∈ n.enabled k)
    (hfire : n.fire k t = .ok next) (hfree : s.graph.edgesBy source t = [])
    (hj : s'.graph.StateAt j st') (hnext : st'.marking = next) :
    Followed n m limit source k t s (s'.addEdge (firing n source t j)) where
  sound := h.addEdge ⟨st, hst, hk ▸ ht⟩
  grows := ⟨hgrows.states, hgrows.full⟩
  tells := by
    refine ⟨next, hfire, .inl ⟨j, st', hj, hnext, ?_⟩⟩
    rw [edgesBy_addEdge, hedges, hfree, if_pos ⟨rfl, rfl⟩, List.nil_append]
  added := hadded
  others i u hne := by
    rw [edgesBy_addEdge, hedges, if_neg fun he => hne ⟨he.1.symm, he.2.symm⟩, List.append_nil]

theorem Sound.fails_of_full (h : Sound n m limit s) {k : Marking} (hnew : s.numbers[k]? = none)
    (hreach : n.Reaches m k) (hsize : maxStates ≤ s.graph.states.size)
    (hlimit : ∀ l ∈ limit, s.graph.states.size < l) : Fails n m limit .tooManyStates := by
  have hnot : k ∉ s.graph.states.toList.map State.marking := fun hk =>
    h.numbers_eq_none hnew (has_iff_mem.2 hk)
  refine .inr ⟨rfl, fun l hl => Nat.lt_of_le_of_lt hsize (hlimit l hl),
    k :: s.graph.states.toList.map State.marking, List.nodup_cons.2 ⟨hnot, h.nodup⟩, ?_, ?_⟩
  · rw [List.length_cons, List.length_map, Array.length_toList]
    omega
  · intro k' hk'
    rcases List.mem_cons.1 hk' with rfl | hk'
    · exact hreach
    · obtain ⟨i, st, hi, rfl⟩ := has_iff_mem.2 hk'
      exact h.reached i st hi

theorem addAll_eq_error {m : Marking} {es : List (PlaceId × Nat)} {f : Fault}
    (h : m.addAll es = .error f) : f = .countOverflow := by
  induction es generalizing m with
  | nil => cases h
  | cons e es ih =>
    rw [Marking.addAll] at h
    split at h
    · exact ih h
    · rename_i hadd
      cases h
      rw [Marking.add] at hadd
      split at hadd
      · cases hadd
      · cases hadd
        rfl

theorem Sound.follow (h : Sound n m limit s) {source : Nat} {st : State}
    (hst : s.graph.StateAt source st) {t : TransitionId} (ht : t ∈ n.enabled st.marking)
    (hfree : s.graph.edgesBy source t = []) :
    Yields (Followed n m limit source st.marking t s) (Fails n m limit)
      (follow n limit source st.marking s t) := by
  have hreach := h.reached source st hst
  cases hsucc : n.successor st.marking t with
  | error f =>
    cases addAll_eq_error hsucc
    rw [Search.follow, hsucc]
    exact .inl ⟨rfl, _, t, hreach, ht, hsucc⟩
  | ok next =>
    have hfire := Net.fire_eq_ok_iff.2 ⟨ht, hsucc⟩
    have hnext := hreach.tail hfire
    cases hnumber : s.numbers[next]? with
    | some target =>
      obtain ⟨st', hst', hmark⟩ := (h.numbers next target).1 hnumber
      rw [follow_known hsucc hnumber]
      exact followed_of_addEdge h (.refl _) (fun _ _ => .inl) (fun _ _ => rfl) hst rfl ht hfire hfree
        hst' hmark
    | none =>
      rcases full_or_open limit s.graph.states.size with hfull | hopen
      · have hmissing := h.numbers_eq_none hnumber
        rw [follow_refused hsucc hnumber hfull]
        exact ⟨⟨h.first, h.enabled, h.reached, h.numbers, h.edges, fun _ => ⟨next, hnext, hmissing⟩,
          fun _ => hfull, h.size, h.limited⟩, ⟨fun _ _ hi => hi, fun _ => ⟨rfl, rfl⟩⟩,
          ⟨next, hfire, .inr ⟨rfl, hmissing, hfree⟩⟩, fun _ _ => .inl, fun _ _ _ => rfl⟩
      · rcases Nat.lt_or_ge s.graph.states.size maxStates with hsize | hsize
        · have hroom := h.not_truncated hopen
          have hgrows : Grows s.graph (s.addState n next).graph :=
            ⟨fun i st hi => stateAt_addState.2 (.inl hi), fun htrunc => absurd htrunc hroom⟩
          have hadded : ∀ i st₁, (s.addState n next).graph.StateAt i st₁ →
              s.graph.StateAt i st₁ ∨
                (¬ s.graph.truncated ∧ n.fire st.marking t = .ok st₁.marking) := by
            intro i st₁ hi
            refine (stateAt_addState.1 hi).imp_right ?_
            rintro ⟨_, rfl⟩
            exact ⟨hroom, hfire⟩
          rw [follow_added hsucc hnumber hopen hsize]
          exact followed_of_addEdge (h.addState hnumber hnext hsize hopen) hgrows hadded
            (fun _ _ => rfl) (hgrows.states _ _ hst) rfl ht hfire hfree
            (stateAt_addState.2 (.inr ⟨rfl, rfl⟩)) rfl
        · rw [follow_overfull hsucc hnumber hopen hsize]
          exact h.fails_of_full hnumber hnext hsize hopen

/-- The work on one state, in the middle of it: of its firings only those in `ts` are not told yet. -/
structure Working (n : Net) (m : Marking) (limit : Option Nat) (source : Nat) (st : State)
    (s₀ : Search) (ts : List TransitionId) (s : Search) : Prop where
  sound : Sound n m limit s
  grows : Grows s₀.graph s.graph
  nodup : ts.Nodup
  enabled : ∀ t ∈ ts, t ∈ n.enabled st.marking
  free : ∀ t ∈ ts, s.graph.edgesBy source t = []
  told : ∀ t ∈ n.enabled st.marking, t ∉ ts → s.graph.Tells n source st.marking t
  added : ∀ i st', s.graph.StateAt i st' → s₀.graph.StateAt i st' ∨
    (¬ s₀.graph.truncated ∧ ∃ t, n.fire st.marking t = .ok st'.marking)
  others : ∀ i u, i ≠ source → s.graph.edgesBy i u = s₀.graph.edgesBy i u

/-- To `follow` all firings out of a state is to tell all of them, and nothing else. -/
theorem Sound.followAll (h : Sound n m limit s) {source : Nat} {st : State}
    (hst : s.graph.StateAt source st) (hfree : ∀ t, s.graph.edgesBy source t = []) :
    Yields (Working n m limit source st s []) (Fails n m limit)
      (st.enabled.foldlM (Search.follow n limit source st.marking) s) := by
  have henabled := h.enabled source st hst
  refine Yields.foldlM (C := Working n m limit source st s) (fun t ts s₁ hs₁ => ?_)
    ⟨h, .refl _, henabled ▸ (Net.nodup_transitionIds n).filter _, fun t ht => henabled ▸ ht,
      fun t _ => hfree t, fun t ht hnot => absurd (henabled ▸ ht) hnot, fun _ _ => .inl,
      fun _ _ _ => rfl⟩
  obtain ⟨hnew, hnodup⟩ := List.nodup_cons.1 hs₁.nodup
  refine (hs₁.sound.follow (hs₁.grows.states _ _ hst) (hs₁.enabled t List.mem_cons_self)
    (hs₁.free t List.mem_cons_self)).imp fun s₂ hs₂ => ?_
  have hsame : ∀ u, u ≠ t → s₂.graph.edgesBy source u = s₁.graph.edgesBy source u := fun u hu =>
    hs₂.others source u fun he => hu he.2
  refine ⟨hs₂.sound, hs₁.grows.trans hs₂.grows, hnodup,
    fun u hu => hs₁.enabled u (List.mem_cons_of_mem _ hu), fun u hu => ?_, fun u hu hnot => ?_,
    fun i st' hi => ?_, fun i u hi => ?_⟩
  · rw [hsame u fun he => hnew (he ▸ hu)]
    exact hs₁.free u (List.mem_cons_of_mem _ hu)
  · by_cases hut : u = t
    · exact hut ▸ hs₂.tells
    · refine hs₂.grows.tells (hsame u hut) (hs₁.told u hu fun hmem => ?_)
      exact (List.mem_cons.1 hmem).elim hut hnot
  · rcases hs₂.added i st' hi with hi | ⟨hopen, hfire⟩
    · exact hs₁.added i st' hi
    · exact .inr ⟨fun htrunc => hopen (hs₁.grows.full htrunc).1, t, hfire⟩
  · rw [hs₂.others i u fun he => hi he.1]
    exact hs₁.others i u hi

/-- The graph tells of all firings out of its states. -/
def Complete (n : Net) (g : StateGraph) : Prop :=
  ∀ i st, g.StateAt i st → ∀ t ∈ n.enabled st.marking, g.Tells n i st.marking t

/-- In a graph that is not truncated, what is told leads to states. -/
theorem has_of_tells {g : StateGraph} {i : Nat} {k next : Marking} {t : TransitionId}
    (h : g.Tells n i k t) (hopen : ¬ g.truncated) (hfire : n.fire k t = .ok next) : g.Has next := by
  obtain ⟨_, hnext, ⟨j, st, hj, hst, _⟩ | ⟨htrunc, _⟩⟩ := h
  · cases hfire.symm.trans hnext
    exact ⟨j, st, hj, hst⟩
  · exact absurd htrunc hopen

/-- A search that has told of the firings out of its first `number` states, and of no others, tells of
the firings out of the rest of them. It keeps its states in order. -/
theorem Sound.expand {fuel number : Nat} (h : Sound n m limit s) (hfuel : number + fuel = maxStates)
    (hordered : Ordered n m s.graph)
    (htold : ∀ i st, i < number → s.graph.StateAt i st → ∀ t ∈ n.enabled st.marking,
      s.graph.Tells n i st.marking t)
    (hfree : ∀ i t, number ≤ i → s.graph.edgesBy i t = []) :
    Yields (fun s' => Sound n m limit s' ∧ Complete n s'.graph ∧ Ordered n m s'.graph) (Fails n m limit)
      (Search.expand n limit fuel number s) := by
  induction fuel generalizing number s with
  | zero =>
    refine ⟨h, fun i st hi => htold i st ?_ hi, hordered⟩
    have hlt := hi.lt
    have hsize := h.size
    omega
  | succ fuel ih =>
    rw [Search.expand]
    cases hst : s.graph.states[number]? with
    | none =>
      refine ⟨h, fun i st hi => htold i st ?_ hi, hordered⟩
      have hlt := hi.lt
      have hle := Array.getElem?_eq_none_iff.1 hst
      omega
    | some st =>
      refine Yields.bind ((h.followAll hst fun t => hfree number t (Nat.le_refl _)).imp
        fun s₁ hs₁ => ?_)
      have hordered₁ : Ordered n m s₁.graph := by
        refine hordered.of_grows hs₁.grows ⟨0, _, h.first, rfl⟩ hst ?_ hs₁.added
        intro hopen i st₁ hi hst₁ t k hfire
        exact has_of_tells (htold i st₁ hi hst₁ t (Net.fire_eq_ok_iff.1 hfire).1) hopen hfire
      refine ih hs₁.sound (by omega) hordered₁ (fun i st' hi hst' t ht => ?_) fun i t hi => ?_
      · rcases Nat.lt_succ_iff_lt_or_eq.1 hi with hlt | rfl
        · have hold : i < s.graph.states.size := Nat.lt_trans hlt (StateAt.lt hst)
          have hget : s.graph.StateAt i _ := Array.getElem?_eq_getElem hold
          rw [(hs₁.grows.states i _ hget).unique hst'] at hget
          exact hs₁.grows.tells (hs₁.others i t (Nat.ne_of_lt hlt)) (htold i st' hlt hget t ht)
        · rw [← (hs₁.grows.states i st hst).unique hst'] at ht ⊢
          exact hs₁.told t ht List.not_mem_nil
      · rw [hs₁.others i t (by omega)]
        exact hfree i t (by omega)

end StateGraph.Search

end ProcessNet
