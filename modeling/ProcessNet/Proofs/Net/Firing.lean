/-
Firing goes by the set of arcs, in every net that calls have made from nothing. A transition does not
fire if it is not live, if one of its input places is empty or if one of its inhibitor places is not.
Else each place gets the count that the arcs say, however the rows list them, and the only failure left
is that a place which only gets a token is full. The enabled transitions are those that could fire but
for that.
-/
import ProcessNet.Proofs.Net.History
import ProcessNet.Proofs.StateSpace.Search

namespace ProcessNet.Net

open Identifier

variable {n : Net} {t : TransitionId} {x : Tokens} {m m' : Marking}

/-! ## Nets that calls make -/

/-- The net has been made from nothing by calls in a row. The data of nodes and the name of the net may
be changed between the calls. -/
inductive Obtained : Net → Prop
  | empty : Obtained {}
  | renamed {n : Net} (h : Obtained n) (name : String) : Obtained { n with name }
  | edited {n : Net} (h : Obtained n) (e : Edit) : Obtained (n.edited e)
  | editPlace {n : Net} (h : Obtained n) (p : PlaceId) (f : Place → Place) :
    Obtained (n.editPlace p f)
  | editTransition {n : Net} (h : Obtained n) (t : TransitionId) (f : Transition → Transition) :
    Obtained (n.editTransition t f)

theorem Obtained.editedBy (h : n.Obtained) (es : List Edit) : (n.editedBy es).Obtained := by
  induction es generalizing n with
  | nil => exact h
  | cons e es ih => exact ih (h.edited e)

/-- Only calls that edit a net touch the arcs and the rows. -/
theorem Obtained.aligned (h : n.Obtained) : n.incidence.Aligned := by
  induction h with
  | empty => exact Incidence.aligned_empty
  | renamed _ _ ih | editPlace _ _ _ ih | editTransition _ _ _ ih => exact ih
  | edited _ e ih => exact aligned_editedBy ih [e]

/-! ## What keeps a transition from firing -/

/-- Some input place of `t` is empty, or some inhibitor place is not. -/
def Blocked (n : Net) (t : TransitionId) (x : Tokens) : Prop :=
  (∃ p, Arc.input p t ∈ n.arcs ∧ x p = 0) ∨ ∃ p, Arc.inhibitor p t ∈ n.arcs ∧ 0 < x p

/-- Some place that `t` puts a token into, and neither takes one from nor empties, is full. -/
def Crammed (n : Net) (t : TransitionId) (x : Tokens) : Prop :=
  ∃ q, Arc.output t q ∈ n.arcs ∧ Arc.input q t ∉ n.arcs ∧ Arc.reset q t ∉ n.arcs ∧ x q = maxCount

theorem enabled_iff_not_blocked : n.Enabled t x ↔ n.hasTransition t ∧ ¬ n.Blocked t x := by
  constructor
  · rintro ⟨hlive, hmarked, hunmarked⟩
    refine ⟨hlive, ?_⟩
    rintro (⟨p, hp, hx⟩ | ⟨p, hp, hx⟩)
    · exact Nat.ne_of_gt (hmarked p hp) hx
    · exact Nat.ne_of_gt hx (hunmarked p hp)
  · rintro ⟨hlive, hfree⟩
    refine ⟨hlive, fun p hp => Nat.pos_of_ne_zero fun hx => hfree (.inl ⟨p, hp, hx⟩), fun p hp => ?_⟩
    exact Nat.eq_zero_of_not_pos fun hx => hfree (.inr ⟨p, hp, hx⟩)

/-- A token taken or a place emptied before makes room for the token that comes. -/
theorem after_le_iff {q : PlaceId} (ho : Arc.output t q ∈ n.arcs) (hx : x q ≤ maxCount) :
    n.after t x q ≤ maxCount ↔
      ¬ (Arc.input q t ∉ n.arcs ∧ Arc.reset q t ∉ n.arcs ∧ x q = maxCount) := by
  have hroom : 1 ≤ maxCount := by decide
  rw [after, if_pos ho]
  by_cases hr : Arc.reset q t ∈ n.arcs
  · simp only [hr, if_true, not_true, false_and, and_false, not_false_iff, iff_true]
    omega
  · by_cases hi : Arc.input q t ∈ n.arcs
    · simp only [hr, hi, if_true, if_false, not_true, false_and, not_false_iff, iff_true]
      omega
    · simp only [hr, hi, if_false, not_false_iff, true_and]
      omega

theorem exists_successor_iff_not_crammed (h : n.incidence.Mirrored) (hm : m.Storable) :
    (∃ k, n.successor m t = .ok k) ↔ ¬ n.Crammed t m.tokens := by
  rw [exists_successor_iff h, Crammed, not_exists]
  refine forall_congr' fun q => ?_
  rw [not_and]
  exact forall_congr' fun ho => after_le_iff ho (hm q)

/-! ## What firing answers -/

/-- What comes of firing `t`: an error for each of three causes and a marking in all other cases. -/
structure FiresByArcs (n : Net) (m : Marking) (t : TransitionId) : Prop where
  unknown : n.fire m t = .error (.unknown t) ↔ ¬ n.hasTransition t
  notEnabled : n.fire m t = .error (.notEnabled t) ↔ n.hasTransition t ∧ n.Blocked t m.tokens
  overflow : n.fire m t = .error (.fault .countOverflow) ↔
    n.hasTransition t ∧ ¬ n.Blocked t m.tokens ∧ n.Crammed t m.tokens
  fires : n.hasTransition t → ¬ n.Blocked t m.tokens → ¬ n.Crammed t m.tokens →
    ∃ m', n.fire m t = .ok m' ∧ m'.Canonical ∧ ∀ q, m'.tokens q =
      (if Arc.reset q t ∈ n.arcs then 0
        else if Arc.input q t ∈ n.arcs then m.tokens q - 1 else m.tokens q)
      + if Arc.output t q ∈ n.arcs then 1 else 0

/-- The case that a firing falls under, and what it answers there. -/
inductive Outcome (n : Net) (m : Marking) (t : TransitionId) : Prop
  | unknown (hlive : ¬ n.hasTransition t) (h : n.fire m t = .error (.unknown t))
  | notEnabled (hlive : n.hasTransition t) (hblocked : n.Blocked t m.tokens)
    (h : n.fire m t = .error (.notEnabled t))
  | overflow (hlive : n.hasTransition t) (hfree : ¬ n.Blocked t m.tokens)
    (hfull : n.Crammed t m.tokens) (h : n.fire m t = .error (.fault .countOverflow))
  | fires {m' : Marking} (hlive : n.hasTransition t) (hfree : ¬ n.Blocked t m.tokens)
    (hroom : ¬ n.Crammed t m.tokens) (h : n.fire m t = .ok m') (hsucc : n.successor m t = .ok m')

theorem outcome_fire (hn : n.incidence.Mirrored) (hm : m.Storable) (t : TransitionId) :
    Outcome n m t := by
  by_cases hlive : n.hasTransition t
  · have hknown : ¬ (!n.hasTransition t) = true := by rw [hlive]; decide
    by_cases hblocked : n.Blocked t m.tokens
    · have hdisabled : ¬ n.isEnabled t m := fun he =>
        (enabled_iff_not_blocked.1 ((isEnabled_iff hn).1 he)).2 hblocked
      refine .notEnabled hlive hblocked ?_
      rw [fire, if_neg hknown, if_pos (by rw [Bool.eq_false_iff.2 hdisabled]; rfl)]
    · have henabled : n.isEnabled t m :=
        (isEnabled_iff hn).2 (enabled_iff_not_blocked.2 ⟨hlive, hblocked⟩)
      have hready : ¬ (!n.isEnabled t m) = true := by rw [henabled]; decide
      -- nothing but a full place can stop an enabled transition
      cases hsucc : n.successor m t with
      | ok m' =>
        have hroom := (exists_successor_iff_not_crammed hn hm).1 ⟨m', hsucc⟩
        exact .fires hlive hblocked hroom (by rw [fire, if_neg hknown, if_neg hready, hsucc]) hsucc
      | error f =>
        have hf : f = .countOverflow := StateGraph.Search.addAll_eq_error hsucc
        refine .overflow hlive hblocked ?_ (by rw [fire, if_neg hknown, if_neg hready, hsucc, hf])
        by_contra hroom
        obtain ⟨m', hok⟩ := (exists_successor_iff_not_crammed hn hm).2 hroom
        rw [hsucc] at hok
        cases hok
  · refine .unknown hlive ?_
    rw [fire, if_pos (by rw [Bool.eq_false_iff.2 hlive]; rfl)]

theorem Outcome.firesByArcs (h : Outcome n m t) (hn : n.incidence.Mirrored) (hm : m.Canonical) :
    FiresByArcs n m t := by
  cases h with
  | unknown hlive h => constructor <;> simp [h, hlive]
  | notEnabled hlive hblocked h => constructor <;> simp [h, hlive, hblocked]
  | overflow hlive hfree hfull h => constructor <;> simp [h, hlive, hfree, hfull]
  | @fires m' hlive hfree hroom h hsucc =>
    refine ⟨by simp [h, hlive], by simp [h, hfree], by simp [h, hroom], fun _ _ _ => ?_⟩
    exact ⟨m', h, canonical_successor hm hsucc, fun q => congrFun (tokens_successor hn hsucc) q⟩

theorem mem_enabled_iff (hn : n.incidence.Mirrored) :
    t ∈ n.enabled m ↔ n.hasTransition t ∧ ¬ n.Blocked t m.tokens := by
  rw [enabled, List.mem_filter, mem_transitionIds, isEnabled_iff hn, enabled_iff_not_blocked]
  exact and_iff_right_of_imp And.left

/-- Whatever calls have made a net, `fire` goes by the arcs, and `enabled` lists those live transitions
for which `fire` answers no error, an overflow apart. -/
theorem Obtained.fires_by_arcs (h : n.Obtained) (hm : m.Canonical) (hcounts : m.Storable) :
    (∀ t, FiresByArcs n m t) ∧
    (∀ t, t ∈ n.enabled m ↔
      n.hasTransition t ∧ ∀ e, n.fire m t = .error e → e = .fault .countOverflow) ∧
    Ascending (n.enabled m) := by
  have hn := h.aligned.mirrored
  refine ⟨fun t => (outcome_fire hn hcounts t).firesByArcs hn hm, fun t => ?_,
    (ascending_transitionIds n).sublist List.filter_sublist⟩
  rw [mem_enabled_iff hn]
  refine and_congr_right fun hlive => ?_
  cases outcome_fire hn hcounts t with
  | unknown hdead _ => exact absurd hlive hdead
  | notEnabled _ hblocked h => simp [h, hblocked]
  | overflow _ hfree _ h => simp [h, hfree]
  | fires _ hfree _ h _ => simp [h, hfree]

/-- One place that a transition takes from, empties and puts into. -/
def loop : Net := ({} : Net).editedBy
  [.addPlace ⟨"p", .flow, ""⟩, .addTransition ⟨"t", none, ""⟩, .addArc (.output ⟨0⟩ ⟨0⟩),
    .addArc (.reset ⟨0⟩ ⟨0⟩), .addArc (.input ⟨0⟩ ⟨0⟩)]

/-- A full place may be taken from, emptied and put into by one firing. -/
theorem loop_fires : FiresByArcs loop ⟨[(⟨0⟩, maxCount)]⟩ ⟨0⟩ ∧
    loop.fire ⟨[(⟨0⟩, maxCount)]⟩ ⟨0⟩ = .ok ⟨[(⟨0⟩, 1)]⟩ := by
  have hstorable : Marking.Storable ⟨[(⟨0⟩, maxCount)]⟩ := fun p => by
    rw [Marking.tokens, Marking.lookup_cons]
    split
    · exact Nat.le_refl _
    · exact Nat.zero_le _
  exact ⟨((Obtained.empty.editedBy _).fires_by_arcs ⟨by decide, by decide⟩ hstorable).1 ⟨0⟩, by decide⟩

end ProcessNet.Net
