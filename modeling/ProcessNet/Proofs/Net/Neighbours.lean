/-
Neighbours in nets whose rows mirror the arcs: the sets of neighbours are those of the arcs.
-/
import ProcessNet.Net.TokenGame
import ProcessNet.Reduction.Match

namespace ProcessNet

open Identifier

namespace Net

variable {n : Net}

theorem mem_transitionsAt (h : n.incidence.Mirrored) {p : PlaceId} {t : TransitionId}
    {k : ArcKind} : t ∈ n.transitionsAt p k ↔ Arc.mk p t k ∈ n.arcs := by
  rw [transitionsAt, mem_ascending, List.mem_map, arcs, ← h.mem_placeArcs]
  constructor
  · rintro ⟨⟨u, l⟩, he, rfl⟩
    obtain ⟨hmem, hk⟩ := List.mem_filter.1 he
    exact of_decide_eq_true hk ▸ hmem
  · exact fun hmem => ⟨(t, k), List.mem_filter.2 ⟨hmem, decide_eq_true rfl⟩, rfl⟩

theorem mem_placesAt (h : n.incidence.Mirrored) {p : PlaceId} {t : TransitionId} {k : ArcKind} :
    p ∈ n.placesAt t k ↔ Arc.mk p t k ∈ n.arcs := by
  rw [placesAt, mem_ascending, List.mem_map, arcs, ← h.mem_transitionArcs]
  constructor
  · rintro ⟨⟨u, l⟩, he, rfl⟩
    obtain ⟨hmem, hk⟩ := List.mem_filter.1 he
    exact of_decide_eq_true hk ▸ hmem
  · exact fun hmem => ⟨(p, k), List.mem_filter.2 ⟨hmem, decide_eq_true rfl⟩, rfl⟩

theorem mem_producers (h : n.incidence.Mirrored) {p : PlaceId} {t : TransitionId} :
    t ∈ n.producers p ↔ Arc.output t p ∈ n.arcs :=
  mem_transitionsAt h

theorem mem_consumers (h : n.incidence.Mirrored) {p : PlaceId} {t : TransitionId} :
    t ∈ n.consumers p ↔ Arc.input p t ∈ n.arcs :=
  mem_transitionsAt h

theorem mem_resetters (h : n.incidence.Mirrored) {p : PlaceId} {t : TransitionId} :
    t ∈ n.resetters p ↔ Arc.reset p t ∈ n.arcs :=
  mem_transitionsAt h

theorem mem_inhibited (h : n.incidence.Mirrored) {p : PlaceId} {t : TransitionId} :
    t ∈ n.inhibited p ↔ Arc.inhibitor p t ∈ n.arcs :=
  mem_transitionsAt h

theorem mem_postset (h : n.incidence.Mirrored) {p : PlaceId} {t : TransitionId} :
    p ∈ n.postset t ↔ Arc.output t p ∈ n.arcs :=
  mem_placesAt h

theorem mem_placeInArcs (h : n.incidence.Mirrored) {p : PlaceId} {t : TransitionId} :
    t ∈ n.placeInArcs p ↔ Arc.output t p ∈ n.arcs := by
  rw [placeInArcs, List.mem_map, arcs, Arc.output, ← h.mem_placeArcs]
  constructor
  · rintro ⟨⟨u, k⟩, he, rfl⟩
    obtain ⟨hmem, hk⟩ := List.mem_filter.1 he
    cases k <;> simp [ArcKind.isPlaceToTransition] at hk
    exact hmem
  · exact fun hmem => ⟨(t, .output), List.mem_filter.2 ⟨hmem, rfl⟩, rfl⟩

theorem mem_placeOutArcs (h : n.incidence.Mirrored) {p : PlaceId} {t : TransitionId}
    {k : ArcKind} : (t, k) ∈ n.placeOutArcs p ↔ k ≠ .output ∧ Arc.mk p t k ∈ n.arcs := by
  rw [placeOutArcs, List.mem_filter, arcs, ← h.mem_placeArcs, and_comm]
  cases k <;> simp [ArcKind.isPlaceToTransition, placeArcs]

end Net

namespace AcceptingNet

theorem disjoint_iff {α : Type} [DecidableEq α] {l m : List α} :
    disjoint l m ↔ ∀ x ∈ l, x ∉ m := by
  simp [disjoint]

end AcceptingNet

end ProcessNet
