/-
Self-loop places constrain nothing. What takes from such a place or empties it puts a token back, and
nothing else puts tokens into it, so it always holds a token and never more than it held at first. To
forget it is a map from the reached markings of the net to those of the net without it: the same
transitions are enabled before and after, and to fire first or to forget first comes to the same,
faults included.
-/
import ProcessNet.Proofs.Reduction.Apply
import ProcessNet.Proofs.StateSpace.Search

namespace ProcessNet

namespace Net

variable {n n' : Net} {p : PlaceId} {t : TransitionId} {m k : Marking}

/-- Where `successor` fails, a count overflows. -/
theorem successor_eq_error {f : Fault} (h : n.successor m t = .error f) : f = .countOverflow :=
  StateGraph.Search.addAll_eq_error h

/-! ## Forgetting a place -/

namespace PlaceGone

/-- `isEnabled` answers the same with and without a place that stands in the way of no transition. -/
theorem isEnabled_take (hgone : PlaceGone n p n') (h : n.incidence.Mirrored)
    (hin : Arc.input p t ∈ n.arcs → 0 < m.tokens p)
    (hno : Arc.inhibitor p t ∈ n.arcs → m.tokens p = 0) :
    n'.isEnabled t (m.take p).2 = n.isEnabled t m := by
  rw [Bool.eq_iff_iff, isEnabled_iff hgone.consistent.mirrored, isEnabled_iff h, tokens_take]
  exact ⟨fun he => hgone.enabled_of_without he hin hno, hgone.enabled_without⟩

/-- `successor` without a place is `successor` with it, if the place can hold the tokens put into it. -/
theorem successor_take (hgone : PlaceGone n p n') (h : n.incidence.Mirrored) (hm : m.Canonical)
    (hfit : n.after t m.tokens p ≤ maxCount) :
    n'.successor (m.take p).2 t = (n.successor m t).map fun k => (k.take p).2 := by
  have h' := hgone.consistent.mirrored
  have hcommute := hgone.after_without t m.tokens
  -- Other places overflow in both nets or in none, and this one has room for what it gets.
  have hexists : (∃ k, n'.successor (m.take p).2 t = .ok k) ↔ ∃ k, n.successor m t = .ok k := by
    rw [exists_successor_iff h', exists_successor_iff h, tokens_take, hcommute]
    refine forall_congr' fun q => ?_
    by_cases hq : q = p
    · subst hq
      exact iff_of_true (fun ho => absurd rfl ((hgone.mem_arcs _).1 ho).2) fun _ => hfit
    · have hq' : (Arc.output t q).place ≠ p := hq
      rw [without_of_ne hq, hgone.mem_arcs, and_iff_left hq']
  cases hsucc : n.successor m t with
  | ok k =>
    obtain ⟨k', hsucc'⟩ := hexists.2 ⟨k, hsucc⟩
    rw [hsucc']
    refine congrArg Except.ok ((canonical_successor (hm.take p) hsucc').ext
      ((canonical_successor hm hsucc).take p) fun q => ?_)
    rw [tokens_successor h' hsucc', tokens_take, hcommute, tokens_take, tokens_successor h hsucc]
  | error f =>
    cases hsucc' : n'.successor (m.take p).2 t with
    | ok k' =>
      obtain ⟨k, hk⟩ := hexists.1 ⟨k', hsucc'⟩
      cases hsucc.symm.trans hk
    | error f' => rw [successor_eq_error hsucc, successor_eq_error hsucc']; rfl

/-- To `fire` and to forget a place commute, faults included. -/
theorem fire_take (hgone : PlaceGone n p n') (h : n.incidence.Mirrored) (hm : m.Canonical)
    (henabled : n'.isEnabled t (m.take p).2 = n.isEnabled t m)
    (hfit : n.isEnabled t m → n.after t m.tokens p ≤ maxCount) :
    n'.fire (m.take p).2 t = (n.fire m t).map fun k => (k.take p).2 := by
  unfold fire
  rw [hgone.hasTransition_eq, henabled]
  by_cases hlive : n.hasTransition t
  · by_cases he : n.isEnabled t m
    · rw [hgone.successor_take h hm (hfit he)]
      simp only [hlive, he, Bool.not_true, Bool.false_eq_true, if_false]
      cases n.successor m t <;> rfl
    · simp only [hlive, he, Bool.not_true, Bool.false_eq_true, if_false, Bool.not_false, if_true]
      rfl
  · simp only [hlive, Bool.not_false, if_true]
    rfl

end PlaceGone

/-- If `fire` commutes with a map along all firings from a marking, the map leads from the markings
reached in one net onto those reached in the other one. -/
theorem reaches_iff_of_fire_map {f : Marking → Marking}
    (h : ∀ l, n.Reaches m l → ∀ t, n'.fire (f l) t = (n.fire l t).map f) :
    n'.Reaches (f m) k ↔ ∃ l, n.Reaches m l ∧ f l = k := by
  constructor
  · intro hk
    refine hk.induct (P := fun k => ∃ l, n.Reaches m l ∧ f l = k) ⟨m, .refl n m, rfl⟩ ?_
    rintro _ t k' ⟨l, hl, rfl⟩ hfire
    rw [h l hl t] at hfire
    cases hl' : n.fire l t with
    | ok l' =>
      rw [hl'] at hfire
      cases hfire
      exact ⟨l', hl.tail hl', rfl⟩
    | error e => rw [hl'] at hfire; cases hfire
  · rintro ⟨l, hl, rfl⟩
    refine (hl.induct (P := fun l => n.Reaches m l ∧ n'.Reaches (f m) (f l))
      ⟨.refl n m, .refl n' (f m)⟩ ?_).2
    rintro l t l' ⟨hl, hfl⟩ hfire
    refine ⟨hl.tail hfire, hfl.tail (t := t) ?_⟩
    rw [h l hl t, hfire]
    rfl

/-! ## Places that are kept filled -/

variable {x : Tokens}

/-- A firing leaves a token on a place that is kept filled, and not more than were there. -/
theorem Refilled.after_le (h : n.Refilled p) (hx : 0 < x p) : n.after t x p ≤ x p := by
  unfold after
  by_cases ho : Arc.output t p ∈ n.arcs
  · rw [if_pos ho]
    by_cases hr : Arc.reset p t ∈ n.arcs
    · rw [if_pos hr]
      omega
    · rw [if_neg hr, if_pos ((h.used t ho).resolve_right hr)]
      omega
  · rw [if_neg ho]
    split_ifs <;> omega

/-- So it holds a token whenever it held one at first, and not more than then. -/
theorem Refilled.tokens_of_reaches (h : n.Refilled p) (hn : n.incidence.Mirrored)
    (hm : 0 < m.tokens p) (hk : n.Reaches m k) : 0 < k.tokens p ∧ k.tokens p ≤ m.tokens p := by
  refine hk.induct (P := fun l => 0 < l.tokens p ∧ l.tokens p ≤ m.tokens p)
    ⟨hm, Nat.le_refl _⟩ fun l t l' hl hfire => ?_
  obtain ⟨_, htokens⟩ := fire_eq_ok hn hfire
  rw [htokens]
  exact ⟨after_pos_of_refilled h.restored t _ hl.1, Nat.le_trans (h.after_le hl.1) hl.2⟩

end Net

namespace AcceptingNet

variable {a : AcceptingNet} {p : PlaceId}

/-- A place that `ELP` matches constrains nothing. It holds a token in every marking that is reached, and
to forget it is a functional bisimulation to the net without it: the same transitions are enabled, firing
commutes with forgetting, and the markings reached without it are those reached with it once it is
forgotten. -/
theorem selfLoopPlace_constrains_nothing (hnet : a.net.checkConsistency = .ok ())
    (hnodup : a.net.arcs.Nodup) (hinitial : a.initial.Canonical) (hstore : a.initial.tokens p ≤ maxCount)
    (hm : a.isSelfLoopPlace p) :
    ∃ n place, a.net.removePlace p = .ok (n, place) ∧
      (∀ k, a.net.Reaches a.initial k → 0 < k.tokens p ∧
        ∀ t, n.isEnabled t (k.take p).2 = a.net.isEnabled t k ∧
          n.fire (k.take p).2 t = (a.net.fire k t).map fun l => (l.take p).2) ∧
      ∀ k, n.Reaches (a.initial.take p).2 k ↔ ∃ l, a.net.Reaches a.initial l ∧ (l.take p).2 = k := by
  have hcons := (Net.consistent_iff_checkConsistency hnodup).2 hnet
  have hmirrored := hcons.mirrored
  obtain ⟨hlive, hmarked, _, hrefilled⟩ := (isSelfLoopPlace_iff hmirrored).1 hm
  obtain ⟨n, place, hok, hgone⟩ := hcons.exists_removePlace hlive
  have hreached : ∀ k, a.net.Reaches a.initial k → 0 < k.tokens p ∧
      ∀ t, n.isEnabled t (k.take p).2 = a.net.isEnabled t k ∧
        n.fire (k.take p).2 t = (a.net.fire k t).map fun l => (l.take p).2 := by
    intro k hk
    obtain ⟨hpos, hle⟩ := hrefilled.tokens_of_reaches hmirrored hmarked hk
    refine ⟨hpos, fun t => ?_⟩
    have henabled := hgone.isEnabled_take (t := t) hmirrored (fun _ => hpos)
      fun hno => absurd hno (hrefilled.free t)
    have hfit : a.net.after t k.tokens p ≤ maxCount :=
      Nat.le_trans (hrefilled.after_le hpos) (Nat.le_trans hle hstore)
    exact ⟨henabled, hgone.fire_take hmirrored (Net.canonical_of_reaches hinitial hk) henabled
      fun _ => hfit⟩
  exact ⟨n, place, hok, hreached, fun k =>
    Net.reaches_iff_of_fire_map fun l hl t => ((hreached l hl).2 t).2⟩

/-- Work that borrows a tool and gives it back. -/
def borrowing : AcceptingNet where
  net := {
    name := "borrowing"
    places := ⟨[some { name := "before" }, some { name := "behind" }, some { name := "tool" }]⟩
    transitions := ⟨[some { name := "work", label := some "work" }]⟩
    incidence := {
      arcs := [.input ⟨0⟩ ⟨0⟩, .output ⟨0⟩ ⟨1⟩, .input ⟨2⟩ ⟨0⟩, .output ⟨0⟩ ⟨2⟩]
      byPlace := ⟨[[(⟨0⟩, .input)], [(⟨0⟩, .output)], [(⟨0⟩, .input), (⟨0⟩, .output)]]⟩
      byTransition := ⟨[[(⟨0⟩, .input), (⟨1⟩, .output), (⟨2⟩, .input), (⟨2⟩, .output)]]⟩ }
    placeNames := ⟨[("before", ⟨0⟩), ("behind", ⟨1⟩), ("tool", ⟨2⟩)]⟩
    transitionNames := ⟨[("work", ⟨0⟩)]⟩ }
  initial := ⟨[(⟨0⟩, 1), (⟨2⟩, 1)]⟩
  final := ⟨[(⟨1⟩, 1)]⟩

/-- The tool is always there, so the work can be done without it. -/
theorem borrowing_needs_no_tool :
    (∀ k, borrowing.net.Reaches borrowing.initial k → 0 < k.tokens ⟨2⟩) ∧
    ∃ n place, borrowing.net.removePlace ⟨2⟩ = .ok (n, place) ∧
      n.Reaches ⟨[(⟨0⟩, 1)]⟩ ⟨[(⟨1⟩, 1)]⟩ := by
  obtain ⟨n, place, hok, hkept, hreaches⟩ := selfLoopPlace_constrains_nothing (a := borrowing)
    (p := ⟨2⟩) (by decide) (by decide) ⟨by decide, by decide⟩ (by decide)
    (by decide)
  exact ⟨fun k hk => (hkept k hk).1, n, place, hok,
    (hreaches _).2 ⟨⟨[(⟨1⟩, 1), (⟨2⟩, 1)]⟩, ⟨[⟨0⟩], by decide⟩, by decide⟩⟩

end AcceptingNet

end ProcessNet
