/-
The visible language of a state graph: the label sequences of its paths from the first state to a
target, silent firings left out. A breadth-first search meets the paths by their ends: a path is known
by the state that it has come to and by its labels, so a cycle of silent firings leads back to what is
known already.
-/
import Std.Data.HashSet
import ProcessNet.StateSpace.Basic

namespace ProcessNet

/-- The state that a path has come to, with the labels on the path. -/
structure Trail where
  state : Nat
  labels : List String
deriving DecidableEq, Hashable, Repr

/-- The trail behind one more firing. A labelled one is not taken if there are `max` labels already. -/
def Trail.after? (max : Nat) (t : Trail) (e : Edge) : Option Trail :=
  match e.label with
  | none => some ⟨e.target, t.labels⟩
  | some a => if t.labels.length = max then none else some ⟨e.target, t.labels ++ [a]⟩

namespace StateGraph

variable (g : StateGraph)

/-- The trails behind the firings out of the state that a path has come to. -/
def trailsAfter (max : Nat) (t : Trail) : List Trail :=
  (g.edges.toList.filter fun e => e.source = t.state).filterMap (t.after? max)

/-! ## There are finitely many trails -/

/-- The sequences of at most so many of the given labels. -/
def sequences (labels : List String) : Nat → List (List String)
  | 0 => [[]]
  | k + 1 => [] :: labels.flatMap fun a => (sequences labels k).map (a :: ·)

/-- All trails with at most `max` labels that there can be. -/
def trails (max : Nat) : List Trail :=
  (0 :: g.edges.toList.map (·.target)).flatMap fun i =>
    (sequences (g.edges.toList.filterMap (·.label)) max).map (Trail.mk i)

theorem mem_sequences {labels : List String} {k : Nat} {l : List String} :
    l ∈ sequences labels k ↔ l.length ≤ k ∧ ∀ a ∈ l, a ∈ labels := by
  induction k generalizing l with
  | zero => cases l <;> simp [sequences]
  | succ k ih =>
    cases l with
    | nil => simp [sequences]
    | cons a l =>
      simp only [sequences, List.mem_cons, List.mem_flatMap, List.mem_map, ih]
      constructor
      · rintro (h | ⟨b, hb, _, ⟨hlength, hlabels⟩, h⟩)
        · cases h
        · cases h
          exact ⟨Nat.succ_le_succ hlength, fun c hc => hc.elim (· ▸ hb) (hlabels c)⟩
      · rintro ⟨hlength, hlabels⟩
        exact .inr ⟨a, hlabels a (.inl rfl), l,
          ⟨Nat.le_of_succ_le_succ hlength, fun c hc => hlabels c (.inr hc)⟩, rfl⟩

theorem mem_trails {max : Nat} {t : Trail} :
    t ∈ g.trails max ↔ (t.state = 0 ∨ ∃ e ∈ g.edges.toList, e.target = t.state) ∧
      t.labels.length ≤ max ∧ ∀ a ∈ t.labels, ∃ e ∈ g.edges.toList, e.label = some a := by
  rcases t with ⟨i, l⟩
  simp only [trails, List.mem_flatMap, List.mem_cons, List.mem_map, mem_sequences,
    List.mem_filterMap, Trail.mk.injEq]
  constructor
  · rintro ⟨_, hi, _, hl, rfl, rfl⟩
    exact ⟨hi, hl⟩
  · rintro ⟨hi, hl⟩
    exact ⟨i, hi, l, hl, rfl, rfl⟩

theorem start_mem_trails (max : Nat) : ⟨0, []⟩ ∈ g.trails max :=
  g.mem_trails.2 ⟨.inl rfl, Nat.zero_le _, nofun⟩

theorem mem_trailsAfter {max : Nat} {t u : Trail} :
    u ∈ g.trailsAfter max t ↔
      ∃ e ∈ g.edges.toList, e.source = t.state ∧ t.after? max e = some u := by
  simp [trailsAfter, and_assoc]

theorem mem_trails_of_after {max : Nat} {t u : Trail} (ht : t ∈ g.trails max)
    (hu : u ∈ g.trailsAfter max t) : u ∈ g.trails max := by
  obtain ⟨e, he, _, hafter⟩ := g.mem_trailsAfter.1 hu
  obtain ⟨_, hlength, hlabels⟩ := g.mem_trails.1 ht
  rw [Trail.after?] at hafter
  split at hafter
  · cases hafter
    exact g.mem_trails.2 ⟨.inr ⟨e, he, rfl⟩, hlength, hlabels⟩
  · rename_i a ha
    split at hafter
    · cases hafter
    · cases hafter
      refine g.mem_trails.2 ⟨.inr ⟨e, he, rfl⟩, ?_, fun b hb => ?_⟩
      · rw [List.length_append, List.length_singleton]
        omega
      · rcases List.mem_append.1 hb with hb | hb
        · exact hlabels b hb
        · exact ⟨e, he, List.mem_singleton.1 hb ▸ ha⟩

/-! ## The search -/

/-- A search under way: the trails met, in the order in which they are worked on, the ones worked on
already, and the label sequences of those among them that have come to the goal. -/
structure Walk where
  queue : Array Trail
  seen : Std.HashSet Trail
  found : List (List String)

namespace Walk

/-- The search that has met the path without firings only. -/
def start : Walk := ⟨#[⟨0, []⟩], ∅, []⟩

/-- Works on a trail. -/
def visit (goal max : Nat) (w : Walk) (t : Trail) : Walk where
  queue := w.queue ++ (g.trailsAfter max t).toArray
  seen := w.seen.insert t
  found := if t.state = goal then t.labels :: w.found else w.found

/-- The trails not worked on. -/
def unseen (max : Nat) (w : Walk) : List Trail :=
  (g.trails max).filter fun t => !w.seen.contains t

variable {g} {goal max : Nat} {w : Walk} {t : Trail}

theorem length_unseen_visit (ht : t ∈ g.trails max) (hnew : ¬ w.seen.contains t) :
    ((w.visit g goal max t).unseen g max).length < (w.unseen g max).length := by
  have hunseen : (w.visit g goal max t).unseen g max = (w.unseen g max).filter (t != ·) := by
    simp [unseen, visit, List.filter_filter, Std.HashSet.contains_insert, bne]
  rw [hunseen, List.length_filter_lt_length_iff_exists]
  exact ⟨t, List.mem_filter.2 ⟨ht, by simpa using hnew⟩, by simp⟩

theorem mem_queue_visit {u : Trail} :
    u ∈ (w.visit g goal max t).queue ↔ u ∈ w.queue ∨ u ∈ g.trailsAfter max t :=
  Array.mem_append.trans (or_congr_right List.mem_toArray)

theorem mem_trails_of_visit (hqueue : ∀ u ∈ w.queue, u ∈ g.trails max) (ht : t ∈ w.queue) :
    ∀ u ∈ (w.visit g goal max t).queue, u ∈ g.trails max := fun u hu =>
  (mem_queue_visit.1 hu).elim (hqueue u) fun hu => g.mem_trails_of_after (hqueue t ht) hu

variable (g)

/-- Works on the trail with the given number, and then on those behind it. -/
def run (goal max number : Nat) (w : Walk) (hqueue : ∀ t ∈ w.queue, t ∈ g.trails max) :
    List (List String) :=
  match hget : w.queue[number]? with
  | none => w.found
  | some t =>
    if hseen : w.seen.contains t then run goal max (number + 1) w hqueue
    else
      run goal max (number + 1) (w.visit g goal max t)
        (mem_trails_of_visit hqueue (Array.mem_of_getElem? hget))
termination_by ((w.unseen g max).length, w.queue.size - number)
decreasing_by
  · have := (Array.getElem?_eq_some_iff.1 hget).1
    exact .right _ (by omega)
  · exact .left _ _ (length_unseen_visit (hqueue t (Array.mem_of_getElem? hget)) hseen)

end Walk

/-- Whether a label sequence stands in front of another one or is the same: the first label that
differs decides, and a sequence stands in front of those that go on from it. -/
def precedes : List String → List String → Bool
  | [], _ => true
  | _ :: _, [] => false
  | a :: l, b :: k => if a = b then precedes l k else decide (a ≤ b)

/-- The label sequences, of at most `max` labels, of the paths from the first state to the state
with the target marking, in order. -/
def visibleLanguage (target : Marking) (max : Nat) : List (List String) :=
  match g.numberOf? target with
  | none => []
  | some goal =>
    (Walk.run g goal max 0 .start fun _ ht =>
      List.mem_singleton.1 (Array.mem_toList_iff.2 ht) ▸ g.start_mem_trails max).mergeSort precedes

end StateGraph

end ProcessNet
