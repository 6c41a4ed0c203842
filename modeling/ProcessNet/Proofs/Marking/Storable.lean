/-
Markings whose counts can be stored. Adding tokens gives such markings only, and taking tokens away keeps
them, so firing leads from one to the next, and it fails only where a count does not fit.
-/
import ProcessNet.Marking.Lemmas
import ProcessNet.Net.TokenGame

namespace ProcessNet

namespace Marking

/-- No place holds more tokens than a count can tell. -/
def Storable (m : Marking) : Prop := ∀ p, m.tokens p ≤ maxCount

theorem Storable.mono {m m' : Marking} (h : m.Storable) (hle : ∀ p, m'.tokens p ≤ m.tokens p) :
    m'.Storable :=
  fun p => Nat.le_trans (hle p) (h p)

theorem Storable.add {m m' : Marking} {p : PlaceId} {k : Nat} (h : m.Storable)
    (hadd : m.add p k = .ok m') : m'.Storable := by
  intro q
  rw [tokens_add hadd]
  obtain ⟨hle, _⟩ := add_eq_ok_iff.1 hadd
  split
  · exact hle
  · exact h q

theorem Storable.addAll {m m' : Marking} {es : List (PlaceId × Nat)} (h : m.Storable)
    (hadd : m.addAll es = .ok m') : m'.Storable := by
  induction es generalizing m with
  | nil =>
    cases hadd
    exact h
  | cons e es ih =>
    rw [Marking.addAll] at hadd
    split at hadd
    · rename_i m₁ hadd₁
      exact ih (h.add hadd₁) hadd
    · cases hadd

theorem tokens_removeAll_le {m : Marking} {es : List (PlaceId × Nat)} (p : PlaceId) :
    (m.removeAll es).tokens p ≤ m.tokens p := by
  induction es generalizing m with
  | nil => exact Nat.le_refl _
  | cons e es ih =>
    refine Nat.le_trans ih ?_
    rw [tokens_remove]
    split
    · rename_i hp
      exact hp ▸ Nat.sub_le _ _
    · exact Nat.le_refl _

/-- `addAll` can add one more token to each of some places as long as each count allows it. -/
theorem exists_addAll_ones_iff {ps : List PlaceId} (hps : ps.Nodup) {m : Marking} :
    (∃ k, m.addAll (ps.map fun p => (p, 1)) = .ok k) ↔ ∀ p ∈ ps, m.tokens p + 1 ≤ maxCount := by
  induction ps generalizing m with
  | nil => exact iff_of_true ⟨m, rfl⟩ (List.forall_mem_nil _)
  | cons p ps ih =>
    obtain ⟨hp, hps⟩ := List.nodup_cons.1 hps
    rw [List.map_cons, addAll, List.forall_mem_cons]
    cases hadd : m.add p 1 with
    | ok m₁ =>
      -- the other places hold what they held
      have hrest : ∀ q ∈ ps, m₁.tokens q = m.tokens q := fun q hq => by
        rw [tokens_add hadd, if_neg (ne_of_mem_of_not_mem hq hp)]
      rw [and_iff_right (add_eq_ok_iff.1 hadd).1, ih hps]
      exact forall₂_congr fun q hq => by rw [hrest q hq]
    | error f =>
      refine iff_of_false ?_ fun hall => ?_
      · rintro ⟨k, hk⟩
        cases hk
      · rw [add, if_pos hall.1] at hadd
        cases hadd

theorem storable_empty : Storable ∅ := fun _ => Nat.zero_le _

theorem storable_of_entries {m : Marking} (h : ∀ e ∈ m.entries, e.2 ≤ maxCount) : m.Storable := by
  intro p
  rw [tokens]
  cases hp : m.entries.lookup p with
  | none => exact Nat.zero_le _
  | some k =>
    obtain ⟨l, l', he, _⟩ := List.lookup_eq_some_iff.1 hp
    exact h (p, k) (he ▸ List.mem_append_right l List.mem_cons_self)

end Marking

theorem Net.storable_successor {n : Net} {t : TransitionId} {m m' : Marking} (h : m.Storable)
    (hm : n.successor m t = .ok m') : m'.Storable := by
  refine Marking.Storable.addAll (h.mono fun p => ?_) hm
  rw [Marking.tokens_clearAll]
  split
  · exact Nat.zero_le _
  · exact Marking.tokens_removeAll_le p

/-- `successor` answers as long as the places that the transition puts tokens into can hold them. -/
theorem Net.exists_successor_iff {n : Net} {t : TransitionId} {m : Marking}
    (h : n.incidence.Mirrored) :
    (∃ k, n.successor m t = .ok k) ↔
      ∀ q, Arc.output t q ∈ n.arcs → n.after t m.tokens q ≤ maxCount := by
  refine (Marking.exists_addAll_ones_iff (nodup_places (nodup_transitionArcs h t) .output)).trans ?_
  refine forall_congr' fun q => (forall_congr' fun ho => ?_).trans (imp_congr_left (mem_outPlaces h))
  rw [tokens_cleared h, after, if_pos ((mem_outPlaces h).1 ho)]

end ProcessNet
