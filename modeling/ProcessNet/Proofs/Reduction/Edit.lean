/-
The edits that rules are made of, as steps of a reduction of a well-formed net: each of them succeeds,
several arcs are added one by one, and a place is detached together with the transition behind it. Each
makes the net lighter: its weight counts places, transitions and reset arcs, but no arcs of other kinds,
because a fusion may add many of them.
-/
import ProcessNet.Proofs.Net.Growth
import ProcessNet.Proofs.Outcome
import ProcessNet.Proofs.Reduction.Match
import ProcessNet.Reduction.Apply

namespace ProcessNet

open Identifier

namespace AcceptingNet

/-- The label sequence `w` is shown by a run from the initial to the final marking. -/
def Accepts (a : AcceptingNet) (w : List String) : Prop :=
  a.net.Accepts a.initial.tokens a.final.tokens w

/-- The parts of the net agree, and the markings are canonical. -/
structure WellFormed (a : AcceptingNet) : Prop where
  consistent : a.net.Consistent
  initial : a.initial.Canonical
  final : a.final.Canonical

/-- No reachable marking holds more tokens on a place than a count can tell. -/
def Bounded (a : AcceptingNet) : Prop :=
  ∀ x, a.net.Reachable a.initial.tokens x → ∀ p, x p ≤ maxCount

end AcceptingNet

namespace Net

/-! ## Nodes that are left -/

theorem hasPlace_iff_of_gone {n n' : Net} {p q : PlaceId}
    (h : ∀ q, n'.place? q = if q = p then none else n.place? q) :
    n'.hasPlace q ↔ n.hasPlace q ∧ q ≠ p := by
  rw [Net.hasPlace, h, Net.hasPlace]
  by_cases hq : q = p <;> simp [hq]

theorem PlaceGone.hasPlace_iff {n n' : Net} {p q : PlaceId} (h : PlaceGone n p n') :
    n'.hasPlace q ↔ n.hasPlace q ∧ q ≠ p :=
  hasPlace_iff_of_gone h.place?

/-! ## Nodes that an arc can join -/

/-- The place is live and has a row. -/
def PlaceReady (n : Net) (p : PlaceId) : Prop :=
  n.hasPlace p ∧ index p < n.incidence.byPlace.size

/-- The transition is live and has a row. -/
def TransitionReady (n : Net) (t : TransitionId) : Prop :=
  n.hasTransition t ∧ index t < n.incidence.byTransition.size

theorem Consistent.placeReady {n : Net} (h : n.Consistent) {b : Arc} (hb : b ∈ n.arcs) :
    n.PlaceReady b.place :=
  ⟨h.livePlace b hb, h.mirrored.place_lt hb⟩

theorem Consistent.transitionReady {n : Net} (h : n.Consistent) {b : Arc} (hb : b ∈ n.arcs) :
    n.TransitionReady b.transition :=
  ⟨h.liveTransition b hb, h.mirrored.transition_lt hb⟩

theorem SameNodes.placeReady {n n' : Net} (h : SameNodes n n') {p : PlaceId}
    (hp : n.PlaceReady p) : n'.PlaceReady p :=
  ⟨h.hasPlace p ▸ hp.1, h.placeRows ▸ hp.2⟩

theorem SameNodes.transitionReady {n n' : Net} (h : SameNodes n n') {t : TransitionId}
    (ht : n.TransitionReady t) : n'.TransitionReady t :=
  ⟨h.hasTransition t ▸ ht.1, h.transitionRows ▸ ht.2⟩

theorem PlaceGone.placeReady {n n' : Net} {p q : PlaceId} (h : PlaceGone n p n') (hne : q ≠ p)
    (hq : n.PlaceReady q) : n'.PlaceReady q :=
  ⟨h.hasPlace_iff.2 ⟨hq.1, hne⟩, h.placeRows ▸ hq.2⟩

theorem TransitionGone.transitionReady {n n' : Net} {t u : TransitionId}
    (h : TransitionGone n t n') (hne : u ≠ t) (hu : n.TransitionReady u) :
    n'.TransitionReady u :=
  ⟨h.hasTransition_iff.2 ⟨hu.1, hne⟩, h.transitionRows ▸ hu.2⟩

theorem PlaceGone.transitionReady {n n' : Net} {p : PlaceId} {u : TransitionId}
    (h : PlaceGone n p n') (hu : n.TransitionReady u) : n'.TransitionReady u :=
  ⟨h.hasTransition_eq u ▸ hu.1, h.transitionRows ▸ hu.2⟩

theorem TransitionGone.placeReady {n n' : Net} {t : TransitionId} {q : PlaceId}
    (h : TransitionGone n t n') (hq : n.PlaceReady q) : n'.PlaceReady q := by
  refine ⟨?_, h.placeRows ▸ hq.2⟩
  rw [hasPlace, h.place?]
  exact hq.1

/-! ## Edits of several arcs and nodes -/

/-- `n'` is `n` without the place `p`, the transition `u` and the arcs at them. -/
structure Detached (n : Net) (p : PlaceId) (u : TransitionId) (n' : Net) : Prop where
  consistent : n'.Consistent
  placeReady : ∀ q, q ≠ p → n.PlaceReady q → n'.PlaceReady q
  transitionReady : ∀ t, t ≠ u → n.TransitionReady t → n'.TransitionReady t
  place? : ∀ q, n'.place? q = if q = p then none else n.place? q
  transition? : ∀ t, n'.transition? t = if t = u then none else n.transition? t
  mem_arcs : ∀ b, b ∈ n'.arcs ↔ b ∈ n.arcs ∧ b.place ≠ p ∧ b.transition ≠ u
  placeCount : n'.placeCount + 1 = n.placeCount
  transitionCount : n'.transitionCount + 1 = n.transitionCount

/-- An agglomeration that leaves a consistent net. -/
structure Fused (n : Net) (p : PlaceId) (u : TransitionId) (n' : Net) : Prop
    extends Agglomerated n p u n' where
  consistent : n'.Consistent
  place? : ∀ q, n'.place? q = if q = p then none else n.place? q
  placeCount : n'.placeCount + 1 = n.placeCount
  transitionCount : n'.transitionCount + 1 = n.transitionCount

/-- `n'` is `n` without the reset arc from `p` to `t`. -/
structure ResetGone (n : Net) (p : PlaceId) (t : TransitionId) (n' : Net) : Prop where
  consistent : n'.Consistent
  nodes : SameNodes n n'
  mem_arcs : ∀ b, b ∈ n'.arcs ↔ b ∈ n.arcs ∧ b ≠ .reset p t
  arcCount : n'.arcCount + 1 = n.arcCount

variable {n n₁ n₂ : Net} {p : PlaceId} {u : TransitionId}

theorem Fused.hasPlace_iff {q : PlaceId} (h : n.Fused p u n₁) :
    n₁.hasPlace q ↔ q ≠ p ∧ n.hasPlace q :=
  (hasPlace_iff_of_gone h.place?).trans and_comm

theorem Fused.hasTransition_iff {t : TransitionId} (h : n.Fused p u n₁) :
    n₁.hasTransition t ↔ t ≠ u ∧ n.hasTransition t := by
  rw [Net.hasTransition, h.transition?, Net.hasTransition]
  by_cases ht : t = u <;> simp [ht]

theorem PlaceGone.detached (h₁ : PlaceGone n p n₁) (h₂ : TransitionGone n₁ u n₂) :
    Detached n p u n₂ where
  consistent := h₂.consistent
  placeReady _ hne hq := h₂.placeReady (h₁.placeReady hne hq)
  transitionReady _ hne ht := h₂.transitionReady hne (h₁.transitionReady ht)
  place? q := by rw [h₂.place?, h₁.place?]
  transition? t := by rw [h₂.transition?, h₁.transition?]
  mem_arcs b := by rw [h₂.mem_arcs, h₁.mem_arcs, and_assoc]
  placeCount := by rw [h₂.placeCount, h₁.placeCount]
  transitionCount := by rw [h₂.transitionCount, h₁.transitionCount]

theorem TransitionGone.detached (h₁ : TransitionGone n u n₁) (h₂ : PlaceGone n₁ p n₂) :
    Detached n p u n₂ where
  consistent := h₂.consistent
  placeReady _ hne hq := h₂.placeReady hne (h₁.placeReady hq)
  transitionReady _ hne ht := h₂.transitionReady (h₁.transitionReady hne ht)
  place? q := by rw [h₂.place?, h₁.place?]
  transition? t := by rw [h₂.transition?, h₁.transition?]
  mem_arcs b := by rw [h₂.mem_arcs, h₁.mem_arcs, and_assoc, and_comm (a := b.transition ≠ u)]
  placeCount := by rw [h₂.placeCount, h₁.placeCount]
  transitionCount := by rw [h₂.transitionCount, h₁.transitionCount]

/-- To detach a place and the transition behind it, and to let the producers of the place serve the
outputs of the transition, is to fuse them. -/
theorem Detached.fused {extra : Arc → Prop} (h : Detached n p u n₁)
    (ha : Agglomerable n p u) (he : Extended n₁ extra n₂)
    (hextra : ∀ b, extra b ↔
      b.kind = .output ∧ Arc.output b.transition p ∈ n.arcs ∧ Arc.output u b.place ∈ n.arcs) :
    Fused n p u n₂ where
  toAgglomerable := ha
  transition? t := by rw [he.nodes.transition?, h.transition?]
  mem_arcs b := by rw [he.mem_arcs, h.mem_arcs, hextra, or_comm]
  consistent := he.consistent
  place? q := by rw [he.nodes.place?, h.place?]
  placeCount := by rw [he.nodes.placeCount, h.placeCount]
  transitionCount := by rw [he.nodes.transitionCount, h.transitionCount]

end Net

namespace Reduction

/-! ## Single edits -/

def withNet (s : Reduction) (n : Net) : Reduction :=
  { s with accepting := { s.accepting with net := n } }

variable {s : Reduction}

@[simp] theorem withNet_withNet (n n' : Net) : (s.withNet n).withNet n' = s.withNet n' := rfl

theorem onNet_of_ok {α : Type} {f : Net → Except NetError (Net × α)} {n : Net} {x : α}
    (h : f s.net = .ok (n, x)) : onNet f s = .ok () (s.withNet n) := by
  unfold onNet
  rw [get_bind, h]
  rfl

theorem onNet_eq_ok {α : Type} {f : Net → Except NetError (Net × α)} {u : Unit} {s' : Reduction}
    (h : onNet f s = .ok u s') : ∃ n x, f s.net = .ok (n, x) ∧ s' = s.withNet n := by
  unfold onNet at h
  rw [get_bind] at h
  cases hf : f s.net with
  | ok r =>
    obtain ⟨n, x⟩ := r
    rw [hf] at h
    cases h
    exact ⟨n, x, rfl, rfl⟩
  | error e =>
    rw [hf] at h
    cases h

theorem exists_removePlace (h : s.net.Consistent) {p : PlaceId} (hp : s.net.hasPlace p) :
    ∃ n, removePlace p s = .ok () (s.withNet n) ∧ s.net.PlaceGone p n := by
  obtain ⟨n, x, hok, hgone⟩ := h.exists_removePlace hp
  exact ⟨n, onNet_of_ok hok, hgone⟩

theorem exists_removeTransition (h : s.net.Consistent) {t : TransitionId}
    (ht : s.net.hasTransition t) :
    ∃ n, removeTransition t s = .ok () (s.withNet n) ∧ s.net.TransitionGone t n := by
  obtain ⟨n, x, hok, hgone⟩ := h.exists_removeTransition ht
  exact ⟨n, onNet_of_ok hok, hgone⟩

theorem exists_addOutput (h : s.net.Consistent) {t : TransitionId} {p : PlaceId}
    (ht : s.net.TransitionReady t) (hp : s.net.PlaceReady p) :
    ∃ n, addOutput t p s = .ok () (s.withNet n) ∧ s.net.Extended (· = .output t p) n := by
  obtain ⟨n, new, hok, hn, hsame, hmem⟩ :=
    h.exists_addArc (a := .output t p) hp.1 ht.1 hp.2 ht.2
  exact ⟨n, onNet_of_ok hok, hn, hsame, hmem⟩

theorem takeInitial_eq (p : PlaceId) : takeInitial p s = .ok (s.accepting.initial.tokens p)
    { s with accepting := { s.accepting with initial := (s.accepting.initial.take p).2 } } :=
  rfl

/-- To put tokens into the initial marking goes as it goes in the marking. -/
theorem ends_addInitial {p : PlaceId} {k : Nat} {post : Unit → Reduction → Prop}
    {fail : ReductionError → Reduction → Prop}
    (hok : ∀ m, s.accepting.initial.add p k = .ok m →
      post () { s with accepting := { s.accepting with initial := m } })
    (herror : ∀ f, s.accepting.initial.add p k = .error f → fail (.net (.fault f)) s) :
    Ends post fail (addInitial p k s) := by
  unfold addInitial
  rw [get_bind]
  cases hadd : s.accepting.initial.add p k with
  | ok m => exact hok m hadd
  | error f => exact herror f hadd

/-- A loop of additions adds what its turns add. -/
theorem exists_forM_extended {α : Type} {f : α → ReductionM Unit} {E : α → Arc → Prop} {n : Net}
    {l : List α} (h : s.net.Consistent) (hnodes : n.SameNodes s.net)
    (hturn : ∀ i ∈ l, ∀ s : Reduction, s.net.Consistent → n.SameNodes s.net →
      ∃ n', f i s = .ok () (s.withNet n') ∧ s.net.Extended (E i) n') :
    ∃ n', l.forM f s = .ok () (s.withNet n') ∧ s.net.Extended (fun b => ∃ i ∈ l, E i b) n' := by
  induction l generalizing s with
  | nil => exact ⟨s.net, rfl, h, .refl _, by simp⟩
  | cons i l ih =>
    obtain ⟨n₁, hf, h₁⟩ := hturn i List.mem_cons_self s h hnodes
    obtain ⟨n₂, hl, h₂⟩ := ih (s := s.withNet n₁) h₁.consistent (hnodes.trans h₁.nodes)
      fun j hj => hturn j (List.mem_cons_of_mem _ hj)
    refine ⟨n₂, ?_, h₂.consistent, h₁.nodes.trans h₂.nodes, fun b => ?_⟩
    · rw [List.forM, bind_of_ok hf]
      exact hl
    · have hb := h₁.mem_arcs b
      have hb' : b ∈ n₂.arcs ↔ (∃ j ∈ l, E j b) ∨ b ∈ n₁.arcs := h₂.mem_arcs b
      rw [hb', hb]
      simp only [List.mem_cons, exists_eq_or_imp]
      rw [← or_assoc, or_comm (a := ∃ j ∈ l, E j b)]

end Reduction

/-! ## Weight -/

namespace Net

variable {n n' : Net} {p : PlaceId} {t u : TransitionId}

/-- The number of reset arcs. -/
def resetCount (n : Net) : Nat := (n.arcs.filter (·.kind = .reset)).length

/-- Places, transitions and reset arcs together. -/
def weight (n : Net) : Nat := n.placeCount + n.transitionCount + n.resetCount

theorem resetCount_le (hnodup : n'.arcs.Nodup)
    (h : ∀ b ∈ n'.arcs, b.kind = .reset → b ∈ n.arcs) : n'.resetCount ≤ n.resetCount := by
  refine ((hnodup.filter _).subperm fun b hb => ?_).length_le
  obtain ⟨hb, hk⟩ := List.mem_filter.1 hb
  exact List.mem_filter.2 ⟨h b hb (of_decide_eq_true hk), hk⟩

theorem Fused.weight_lt (h : n.Fused p u n') : n'.weight < n.weight := by
  have hresets : n'.resetCount ≤ n.resetCount :=
    resetCount_le h.consistent.mirrored.nodup fun b hb hk => by
      rcases (h.mem_arcs b).1 hb with hb | hb
      · exact hb.1
      · rw [hk] at hb
        exact nomatch hb.1
  have hplaces := h.placeCount
  have htransitions := h.transitionCount
  unfold weight
  omega

theorem PlaceGone.weight_lt (h : n.PlaceGone p n') : n'.weight < n.weight := by
  have hresets : n'.resetCount ≤ n.resetCount :=
    resetCount_le h.consistent.mirrored.nodup fun b hb _ => ((h.mem_arcs b).1 hb).1
  have hplaces := h.placeCount
  have htransitions := h.transitionCount
  unfold weight
  omega

theorem TransitionGone.weight_lt (h : n.TransitionGone t n') : n'.weight < n.weight := by
  have hresets : n'.resetCount ≤ n.resetCount :=
    resetCount_le h.consistent.mirrored.nodup fun b hb _ => ((h.mem_arcs b).1 hb).1
  have hplaces := h.placeCount
  have htransitions := h.transitionCount
  unfold weight
  omega

theorem ResetGone.weight_lt (h : n.ResetGone p t n') (hp : Arc.reset p t ∈ n.arcs) :
    n'.weight < n.weight := by
  have hresets : n'.resetCount < n.resetCount := by
    have hnot : Arc.reset p t ∉ n'.arcs.filter (·.kind = .reset) := fun hb =>
      ((h.mem_arcs _).1 (List.mem_filter.1 hb).1).2 rfl
    have hnodup := List.nodup_cons.2 ⟨hnot, h.consistent.mirrored.nodup.filter _⟩
    refine (hnodup.subperm fun b hb => ?_).length_le
    rcases List.mem_cons.1 hb with rfl | hb
    · exact List.mem_filter.2 ⟨hp, rfl⟩
    · obtain ⟨hb, hk⟩ := List.mem_filter.1 hb
      exact List.mem_filter.2 ⟨((h.mem_arcs b).1 hb).1, hk⟩
  have hplaces := h.nodes.placeCount
  have htransitions := h.nodes.transitionCount
  unfold weight
  omega

end Net

end ProcessNet
