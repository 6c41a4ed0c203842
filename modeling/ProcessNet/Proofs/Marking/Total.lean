/-
All tokens of a marking together. To drop a place drops its tokens from the total, and to move the tokens
of one place to another one keeps the total, as far as the other place can hold them.
-/
import Mathlib.Algebra.BigOperators.Group.Finset.Basic
import Mathlib.Algebra.BigOperators.Group.Finset.Piecewise
import Mathlib.Algebra.Order.BigOperators.Group.Finset
import ProcessNet.Marking.Lemmas

namespace ProcessNet.Marking

variable {m m' : Marking} {p q r : PlaceId}

theorem add_eq_error {k : Nat} {f : Fault} (h : m.add p k = .error f) :
    f = .countOverflow ∧ maxCount < m.tokens p + k := by
  rw [add] at h
  split at h
  · cases h
  · cases h
    exact ⟨rfl, by omega⟩

/-! ## Moving tokens -/

/-- The marking after all tokens of `p` have been moved to `q`. -/
def moveAll (m : Marking) (p q : PlaceId) : Except Fault Marking :=
  if 0 < m.tokens p then (m.take p).2.add q (m.tokens p) else .ok (m.take p).2

theorem tokens_moveAll (hne : q ≠ p) (h : m.moveAll p q = .ok m') :
    m'.tokens r = if r = p then 0 else m.tokens r + if r = q then m.tokens p else 0 := by
  unfold moveAll at h
  split at h
  · rw [tokens_add h, tokens_take, tokens_take, if_neg hne]
    by_cases hr : r = q
    · rw [hr, if_pos rfl, if_neg hne, if_pos rfl]
    · rw [if_neg hr, if_neg hr, Nat.add_zero]
  · rename_i hk
    cases h
    rw [tokens_take, Nat.eq_zero_of_not_pos hk, ite_self, Nat.add_zero]

theorem Canonical.moveAll (hm : m.Canonical) (h : m.moveAll p q = .ok m') : m'.Canonical := by
  unfold Marking.moveAll at h
  split at h
  · exact (hm.take p).add h
  · cases h
    exact hm.take p

/-- `moveAll` fails only where the other place cannot hold the tokens. -/
theorem moveAll_eq_error (hne : q ≠ p) {f : Fault} (h : m.moveAll p q = .error f) :
    f = .countOverflow ∧ maxCount < m.tokens q + m.tokens p := by
  unfold moveAll at h
  split at h
  · have hadd := add_eq_error h
    rwa [tokens_take_of_ne hne] at hadd
  · cases h

/-- `moveAll` succeeds just if a count can tell the tokens of both places together. -/
theorem exists_moveAll_iff (hne : q ≠ p) :
    (∃ m', m.moveAll p q = .ok m') ↔ (0 < m.tokens p → m.tokens q + m.tokens p ≤ maxCount) := by
  unfold moveAll
  split
  · rename_i hp
    rw [add, tokens_take_of_ne hne]
    split
    · rename_i hle
      exact iff_of_true ⟨_, rfl⟩ fun _ => hle
    · rename_i hgt
      refine iff_of_false ?_ fun h => hgt (h hp)
      rintro ⟨m', h⟩
      cases h
  · rename_i hp
    exact iff_of_true ⟨_, rfl⟩ fun h => absurd h hp

/-! ## Totals -/

/-- The number of all tokens. -/
def total (m : Marking) : Nat := ∑ p ∈ m.places.toFinset, m.tokens p

theorem mem_places_of_tokens (h : m.tokens p ≠ 0) : p ∈ m.places := by
  by_contra hnot
  exact h (by rw [tokens, lookup_eq_none_of_notMem hnot, Option.getD_none])

/-- Places without tokens do not matter. -/
theorem total_eq_sum {S : Finset PlaceId} (hS : ∀ p, m.tokens p ≠ 0 → p ∈ S) :
    m.total = ∑ p ∈ S, m.tokens p := by
  rw [total, ← Finset.sum_filter_ne_zero, ← Finset.sum_filter_ne_zero (s := S)]
  congr 1
  ext p
  simp only [Finset.mem_filter, List.mem_toFinset]
  exact and_congr_left fun hp => iff_of_true (mem_places_of_tokens hp) (hS p hp)

theorem total_take (m : Marking) (p : PlaceId) : (m.take p).2.total + m.tokens p = m.total := by
  have hmem : ∀ r, m.tokens r ≠ 0 → r ∈ insert p m.places.toFinset := fun r hr =>
    Finset.mem_insert_of_mem (List.mem_toFinset.2 (mem_places_of_tokens hr))
  have htake : ∀ r, (m.take p).2.tokens r ≠ 0 → r ∈ insert p m.places.toFinset := fun r hr =>
    hmem r fun h0 => hr (by rw [tokens_take, h0, ite_self])
  rw [total_eq_sum hmem, total_eq_sum htake,
    ← Finset.add_sum_erase _ _ (Finset.mem_insert_self p m.places.toFinset),
    ← Finset.add_sum_erase (a := p) _ m.tokens (Finset.mem_insert_self p m.places.toFinset),
    tokens_take, if_pos rfl, Nat.zero_add, Nat.add_comm]
  congr 1
  refine Finset.sum_congr rfl fun r hr => ?_
  rw [tokens_take_of_ne (Finset.ne_of_mem_erase hr)]

theorem total_moveAll (hne : q ≠ p) (h : m.moveAll p q = .ok m') : m'.total = m.total := by
  let S := insert p (insert q m.places.toFinset)
  have hp : p ∈ S := Finset.mem_insert_self _ _
  have hq : q ∈ S := Finset.mem_insert_of_mem (Finset.mem_insert_self _ _)
  have hmem : ∀ r, m.tokens r ≠ 0 → r ∈ S := fun r hr =>
    Finset.mem_insert_of_mem (Finset.mem_insert_of_mem
      (List.mem_toFinset.2 (mem_places_of_tokens hr)))
  have hmem' : ∀ r, m'.tokens r ≠ 0 → r ∈ S := by
    intro r hr
    rw [tokens_moveAll hne h] at hr
    by_cases hrq : r = q
    · exact hrq ▸ hq
    · refine hmem r fun h0 => hr ?_
      rw [h0, if_neg hrq, ite_self]
  -- what `p` loses is what `q` wins
  have hbalance : ∀ r ∈ S, m'.tokens r + (if r = p then m.tokens p else 0) =
      m.tokens r + if r = q then m.tokens p else 0 := by
    intro r _
    rw [tokens_moveAll hne h]
    by_cases hr : r = p
    · rw [if_pos hr, if_pos hr, hr, if_neg hne.symm, Nat.zero_add, Nat.add_zero]
    · rw [if_neg hr, if_neg hr, Nat.add_zero]
  have hsum := Finset.sum_congr rfl hbalance
  rw [Finset.sum_add_distrib, Finset.sum_add_distrib, Finset.sum_ite_eq', Finset.sum_ite_eq',
    if_pos hp, if_pos hq, ← total_eq_sum hmem, ← total_eq_sum hmem'] at hsum
  omega

theorem tokens_add_tokens_le_total (hne : q ≠ p) : m.tokens q + m.tokens p ≤ m.total := by
  have htake := total_take m p
  have htake' := total_take (m.take p).2 q
  rw [tokens_take_of_ne hne] at htake'
  omega

end ProcessNet.Marking
