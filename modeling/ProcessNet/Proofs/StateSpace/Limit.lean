/-
What the limit of a search leaves out. A search with a higher limit begins with the states that it has
with a lower one, so what is found with the lower limit is found with the higher one, too. With any limit
the states stand in the order of their distances from the initial marking, and what is left out is no
nearer than any of them.

Two searches with different limits go the same way until the first one is full. From then on that one only
goes over its own states, while the other one has all of them and may add to them.
-/
import Mathlib.Order.Bounds.Basic
import ProcessNet.Proofs.StateSpace.Exact

namespace ProcessNet

/-! ## Distances -/

namespace Net

variable {n : Net} {m k k' : Marking}

/-- The shortest runs from `m` to `k` have `d` firings. -/
def Distance (n : Net) (m k : Marking) (d : Nat) : Prop :=
  IsLeast {length | n.ReachesIn m k length} d

/-- A shortest run to `k` is no longer than one to `k'`. -/
def NoFarther (n : Net) (m k k' : Marking) : Prop :=
  ∃ d d', n.Distance m k d ∧ n.Distance m k' d' ∧ d ≤ d'

theorem Reaches.exists_distance (h : n.Reaches m k) : ∃ d, n.Distance m k d := by
  classical
  have hlength := h.exists_reachesIn
  exact ⟨Nat.find hlength, Nat.find_spec hlength, fun _ hd => Nat.find_min' hlength hd⟩

theorem noFarther_of_not_nearer (hk : n.Reaches m k) (hk' : n.Reaches m k')
    (h : ¬ n.Nearer m k' k) : n.NoFarther m k k' := by
  obtain ⟨d, hd⟩ := hk.exists_distance
  obtain ⟨d', hd'⟩ := hk'.exists_distance
  refine ⟨d, d', hd, hd', Nat.le_of_not_lt fun hlt => h ⟨d', hd'.1, fun length hlength => ?_⟩⟩
  exact Nat.lt_of_lt_of_le hlt (hd.2 hlength)

end Net

namespace StateGraph

variable {n : Net} {m : Marking} {limit limit' : Option Nat} {g g' : StateGraph}

/-- The states stand in the order of their distances, and what is left out is no nearer than any of
them. -/
structure Layered (n : Net) (m : Marking) (g : StateGraph) : Prop where
  sorted : ∀ i j st st', i ≤ j → g.StateAt i st → g.StateAt j st' →
    n.NoFarther m st.marking st'.marking
  left_out : ∀ i st k, g.StateAt i st → n.Reaches m k → ¬ g.Has k → n.NoFarther m st.marking k

theorem layered_of_explore (h : explore n m limit = .ok g) : Layered n m g := by
  obtain ⟨s, rfl, hs, _, hordered⟩ := sound_of_explore h
  refine ⟨fun i j st st' hij hi hj => ?_, fun i st k hi hk hnot => ?_⟩
  · refine Net.noFarther_of_not_nearer (hs.reached i st hi) (hs.reached j st' hj) fun hnear => ?_
    obtain ⟨j', st₁, hlt, hj', hmark⟩ := hordered i st _ hi hnear
    have hsame := hs.eq_of_marking_eq hj' hj hmark
    omega
  · refine Net.noFarther_of_not_nearer (hs.reached i st hi) hk fun hnear => ?_
    obtain ⟨j, st₁, _, hj, hmark⟩ := hordered i st k hi hnear
    exact hnot ⟨j, st₁, hj, hmark⟩

/-! ## Two limits -/

/-- The first limit is no higher than the second one. No limit is the highest. -/
def Tighter (limit limit' : Option Nat) : Prop := ∀ l' ∈ limit', ∃ l ∈ limit, l ≤ l'

/-- The states of the first graph are the first ones of the second graph. -/
def Begins (g g' : StateGraph) : Prop := g.states.toList <+: g'.states.toList

theorem Begins.refl (g : StateGraph) : Begins g g := List.prefix_rfl

theorem Begins.trans {g'' : StateGraph} (h : Begins g g') (h' : Begins g' g'') : Begins g g'' :=
  List.IsPrefix.trans h h'

theorem Begins.stateAt (h : Begins g g') {i : Nat} {st : State} (hi : g.StateAt i st) :
    g'.StateAt i st := by
  rw [StateAt, ← Array.getElem?_toList] at hi ⊢
  obtain ⟨l, hl⟩ := h
  rw [← hl, List.getElem?_append_left (List.getElem?_eq_some_iff.1 hi).1]
  exact hi

theorem Begins.has (h : Begins g g') {k : Marking} : g.Has k → g'.Has k
  | ⟨i, st, hi, hk⟩ => ⟨i, st, h.stateAt hi, hk⟩

namespace Search

variable {s s' s₁' : Search} {k : Marking} {source : Nat} {t : TransitionId}

theorem begins_of_follow (h : follow n limit source k s t = .ok s') : Begins s.graph s'.graph := by
  obtain ⟨next, _, ⟨target, _, rfl⟩ | ⟨_, _, rfl⟩ | ⟨_, _, _, rfl⟩⟩ := follow_eq_ok h
  · exact .refl _
  · exact .refl _
  · exact ⟨[⟨next, n.enabled next⟩], Array.toList_push.symm⟩

theorem begins_of_foldlM {ts : List TransitionId}
    (h : ts.foldlM (follow n limit source k) s = .ok s') : Begins s.graph s'.graph := by
  induction ts generalizing s with
  | nil =>
    cases h
    exact .refl _
  | cons t ts ih =>
    rw [List.foldlM_cons] at h
    obtain ⟨s₁, hfollow, hrest⟩ := except_bind_eq_ok.1 h
    exact (begins_of_follow hfollow).trans (ih hrest)

theorem begins_of_expand {fuel number : Nat} (h : expand n limit fuel number s = .ok s') :
    Begins s.graph s'.graph := by
  induction fuel generalizing number s with
  | zero =>
    cases h
    exact .refl _
  | succ fuel ih =>
    rw [expand] at h
    split at h
    · cases h
      exact .refl _
    · obtain ⟨s₁, hfold, hrest⟩ := except_bind_eq_ok.1 h
      exact (begins_of_foldlM hfold).trans (ih hrest)

/-- The first search is as far as the second one, or it is full and the second one has its states. -/
inductive Behind (limit : Option Nat) (s s' : Search) : Prop
  | same (h : s = s')
  | full (h : ∃ l ∈ limit, l ≤ s.graph.states.size) (hbegins : Begins s.graph s'.graph)

/-- A search that is full adds no state. -/
theorem exists_follow_of_full (i : Nat) {next : Marking} (hsucc : n.successor k t = .ok next)
    (hfull : ∃ l ∈ limit, l ≤ s.graph.states.size) :
    ∃ s₁, follow n limit i k s t = .ok s₁ ∧ s₁.graph.states = s.graph.states := by
  cases hnumber : s.numbers[next]? with
  | some target => exact ⟨_, follow_known hsucc hnumber, rfl⟩
  | none => exact ⟨_, follow_refused hsucc hnumber hfull, rfl⟩

theorem Behind.follow (hlimit : Tighter limit limit') (h : Behind limit s s')
    (hfollow : follow n limit' source k s' t = .ok s₁') :
    ∃ s₁, follow n limit source k s t = .ok s₁ ∧ Behind limit s₁ s₁' := by
  obtain ⟨next, hsucc, hways⟩ := follow_eq_ok hfollow
  cases h with
  | same h =>
    subst h
    rcases hways with ⟨target, hnumber, rfl⟩ | ⟨hnumber, ⟨l', hl', hle⟩, rfl⟩ |
      ⟨hnumber, hopen, hsize, rfl⟩
    · exact ⟨_, follow_known hsucc hnumber, .same rfl⟩
    · obtain ⟨l, hl, hll'⟩ := hlimit l' hl'
      exact ⟨_, follow_refused hsucc hnumber ⟨l, hl, Nat.le_trans hll' hle⟩, .same rfl⟩
    · -- the second search adds a state, and the first one does so, too, or is full from now on
      rcases full_or_open limit s.graph.states.size with hfull | hroom
      · exact ⟨_, follow_refused hsucc hnumber hfull,
          .full hfull (begins_of_follow (s := s) hfollow)⟩
      · exact ⟨_, follow_added hsucc hnumber hroom hsize, .same rfl⟩
  | full hfull hbegins =>
    -- whatever the second search does with the firing, the first one keeps its states
    obtain ⟨s₁, hs₁, hstates⟩ := exists_follow_of_full source hsucc hfull
    refine ⟨s₁, hs₁, .full (hstates ▸ hfull) ?_⟩
    rw [Begins, hstates]
    exact hbegins.trans (begins_of_follow hfollow)

theorem Behind.foldlM (hlimit : Tighter limit limit') {ts : List TransitionId} (h : Behind limit s s')
    (hrun : ts.foldlM (Search.follow n limit' source k) s' = .ok s₁') :
    ∃ s₁, ts.foldlM (Search.follow n limit source k) s = .ok s₁ ∧ Behind limit s₁ s₁' := by
  induction ts generalizing s s' with
  | nil =>
    cases hrun
    exact ⟨s, rfl, h⟩
  | cons t ts ih =>
    rw [List.foldlM_cons] at hrun
    obtain ⟨s₂', hfollow', hrest'⟩ := except_bind_eq_ok.1 hrun
    obtain ⟨s₂, hfollow, hbehind⟩ := h.follow hlimit hfollow'
    obtain ⟨s₁, hrest, hends⟩ := ih hbehind hrest'
    refine ⟨s₁, ?_, hends⟩
    rw [List.foldlM_cons]
    exact except_bind_eq_ok.2 ⟨s₂, hfollow, hrest⟩

theorem Behind.begins (h : Behind limit s s') : Begins s.graph s'.graph := by
  cases h with
  | same h => exact h ▸ .refl _
  | full _ hbegins => exact hbegins

/-- The first search comes to its end while the second one goes over the states that both have, or with
it. -/
theorem Behind.expand (hlimit : Tighter limit limit') {fuel number : Nat} (h : Behind limit s s')
    (hrun : Search.expand n limit' fuel number s' = .ok s₁') :
    ∃ s₁, Search.expand n limit fuel number s = .ok s₁ ∧ Begins s₁.graph s₁'.graph := by
  induction fuel generalizing number s s' with
  | zero =>
    cases hrun
    exact ⟨s, rfl, h.begins⟩
  | succ fuel ih =>
    cases hst : s.graph.states[number]? with
    | none =>
      refine ⟨s, ?_, h.begins.trans (begins_of_expand hrun)⟩
      rw [Search.expand, hst]
    | some st =>
      have hst' : s'.graph.states[number]? = some st := h.begins.stateAt hst
      rw [Search.expand, hst'] at hrun
      obtain ⟨s₂', hfold', hrest'⟩ := except_bind_eq_ok.1 hrun
      obtain ⟨s₂, hfold, hbehind⟩ := h.foldlM hlimit hfold'
      obtain ⟨s₁, hrest, hends⟩ := ih hbehind hrest'
      exact ⟨s₁, (expand_succ hst hfold).trans hrest, hends⟩

end Search

theorem explore_eq_ok_iff : explore n m limit = .ok g ↔
    ∃ s, Search.expand n limit maxStates 0 (Search.start n m) = .ok s ∧ s.graph = g := by
  unfold explore
  cases Search.expand n limit maxStates 0 (Search.start n m) <;> simp [Except.map]

theorem exists_explore_of_tighter (hlimit : Tighter limit limit') (h' : explore n m limit' = .ok g') :
    ∃ g, explore n m limit = .ok g ∧ Begins g g' := by
  obtain ⟨s', hs', rfl⟩ := explore_eq_ok_iff.1 h'
  obtain ⟨s, hs, hbegins⟩ := (Search.Behind.same rfl).expand hlimit hs'
  exact ⟨s.graph, explore_eq_ok_iff.2 ⟨s, hs, rfl⟩, hbegins⟩

theorem isEasySound_eq_true_iff {final : Marking} :
    n.isEasySound m final limit = .ok true ↔ ∃ g, explore n m limit = .ok g ∧ g.Has final := by
  unfold Net.isEasySound
  cases explore n m limit with
  | error f => exact iff_of_false nofun fun ⟨_, h, _⟩ => nomatch h
  | ok g => simp [Except.map, contains_iff]

theorem reaches_of_isEasySound {final : Marking} (h : n.isEasySound m final limit = .ok true) :
    n.Reaches m final := by
  obtain ⟨g, hg, i, st, hi, rfl⟩ := isEasySound_eq_true_iff.1 h
  obtain ⟨s, rfl, hs, _⟩ := sound_of_explore hg
  exact hs.reached i st hi

/-- To raise the limit of `explore` only extends what is found. With a state graph for the higher limit,
which fails to be there only if a count overflows or there are too many states to be numbered, comes one
for the lower limit, and its states are the first ones of the other graph. In both graphs the states are
in the order of their distances from the initial marking, and no marking that is left out is nearer than
a state. So what is found with the lower limit is found with the higher one; and with any limit what is
found is reached. -/
theorem explore_extends (hlimit : Tighter limit limit') :
    (∀ g', explore n m limit' = .ok g' →
      (∃ g, explore n m limit = .ok g ∧ Begins g g' ∧ Layered n m g) ∧ Layered n m g' ∧
      ∀ final, n.isEasySound m final limit = .ok true →
        n.isEasySound m final limit' = .ok true) ∧
    (∀ f, explore n m limit' = .error f → Fails n m limit' f) ∧
    ∀ limit final, n.isEasySound m final limit = .ok true → n.Reaches m final := by
  refine ⟨fun g' h' => ?_, fun f hf => ?_, fun _ _ => reaches_of_isEasySound⟩
  · obtain ⟨g, hg, hbegins⟩ := exists_explore_of_tighter hlimit h'
    refine ⟨⟨g, hg, hbegins, layered_of_explore hg⟩, layered_of_explore h', fun final => ?_⟩
    rw [isEasySound_eq_true_iff, isEasySound_eq_true_iff]
    rintro ⟨g₁, hg₁, hhas⟩
    cases hg.symm.trans hg₁
    exact ⟨g', h', hbegins.has hhas⟩
  · have hyields := yields_explore n m limit'
    rw [hf] at hyields
    exact hyields

/-- The state graph of a spring with two states. -/
def brookGraph : StateGraph where
  states := #[⟨∅, [⟨0⟩]⟩, ⟨⟨[(⟨0⟩, 1)]⟩, [⟨0⟩]⟩]
  edges := #[firing spring 0 ⟨0⟩ 1]
  truncated := true

theorem explore_spring_two : explore spring ∅ (some 2) = .ok brookGraph := by
  let s : Search := ((Search.start spring ∅).addState spring ⟨[(⟨0⟩, 1)]⟩).addEdge
    (firing spring 0 ⟨0⟩ 1)
  have hfirst : (Search.start spring ∅).graph.StateAt 0 ⟨∅, [⟨0⟩]⟩ :=
    Search.stateAt_addState.2 (.inr ⟨rfl, by decide⟩)
  have hsecond : s.graph.StateAt 1 ⟨⟨[(⟨0⟩, 1)]⟩, [⟨0⟩]⟩ :=
    Search.stateAt_addState.2 (.inr ⟨rfl, by decide⟩)
  have hfold : [⟨0⟩].foldlM (Search.follow spring (some 2) 0 ∅) (Search.start spring ∅) = .ok s := by
    have hnew : (Search.start spring ∅).numbers[(⟨[(⟨0⟩, 1)]⟩ : Marking)]? = none := by
      rw [Search.numbers_start, if_neg (by decide)]
    have hfollow : Search.follow spring (some 2) 0 ∅ (Search.start spring ∅) ⟨0⟩ = _ :=
      Search.follow_added (by decide) hnew (fun l hl => by cases hl; decide) (by decide)
    simp only [List.foldlM_cons, hfollow, List.foldlM_nil, bind, Except.bind, pure, Except.pure]
    rfl
  have hfold' : [⟨0⟩].foldlM (Search.follow spring (some 2) 1 ⟨[(⟨0⟩, 1)]⟩) s =
      .ok { s with graph := { s.graph with truncated := true } } := by
    have hnew : s.numbers[(⟨[(⟨0⟩, 2)]⟩ : Marking)]? = none := by
      refine (Search.numbers_addState (n := spring)).trans ?_
      rw [if_neg (by decide), Search.numbers_start, if_neg (by decide)]
    have hfollow : Search.follow spring (some 2) 1 ⟨[(⟨0⟩, 1)]⟩ s ⟨0⟩ = _ :=
      Search.follow_refused (by decide) hnew ⟨2, rfl, by decide⟩
    simp only [List.foldlM_cons, hfollow, List.foldlM_nil, bind, Except.bind, pure, Except.pure]
  rw [explore, show maxStates = 4294967292 + 1 + 1 + 1 from rfl, Search.expand_succ hfirst hfold,
    Search.expand_succ hsecond hfold', Search.expand]
  rfl

/-- A second state comes behind the first one, and farther ones are left out. -/
theorem spring_extends : Begins springGraph brookGraph ∧ Layered spring ∅ brookGraph := by
  have hlimit : Tighter (some 1) (some 2) := fun l hl => ⟨1, rfl, by cases hl; decide⟩
  obtain ⟨⟨g, hg, hbegins, _⟩, hlayered, _⟩ :=
    (explore_extends hlimit).1 brookGraph explore_spring_two
  cases hg.symm.trans explore_spring
  exact ⟨hbegins, hlayered⟩

end StateGraph

end ProcessNet
