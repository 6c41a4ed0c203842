/-
Gates: places that only one transition puts tokens on. Each outcome takes a token from a gate and lets
go of one at every gate, so along a run there are no more outcomes than openings, and a gate that was
cleared stays empty until it is opened again.
-/
import ProcessNet.Net.TokenGame

namespace ProcessNet.Net

variable {n : Net} {enter : TransitionId} {outcome : TransitionId → Prop} {gate : PlaceId → Prop}
  {x y : Tokens} {t : TransitionId} {p : PlaceId} {ts : List TransitionId}

/-- Only `enter` opens the gates, and every outcome goes through one gate and closes all of them. -/
structure Gated (n : Net) (enter : TransitionId) (outcome : TransitionId → Prop)
    (gate : PlaceId → Prop) : Prop where
  output : ∀ p, gate p → ∀ t, Arc.output t p ∈ n.arcs → t = enter
  apart : ¬ outcome enter
  input : ∀ t, outcome t → ∃ p, gate p ∧ Arc.input p t ∈ n.arcs
  closes : ∀ t, outcome t → ∀ p, gate p → Arc.input p t ∈ n.arcs ∨ Arc.reset p t ∈ n.arcs

/-- What is not an output of a transition has no more tokens after it than before. -/
theorem after_le (hout : Arc.output t p ∉ n.arcs) : n.after t x p ≤ x p := by
  unfold after
  rw [if_neg hout]
  split
  · omega
  · split <;> omega

theorem after_le_succ : n.after t x p ≤ x p + 1 := by
  unfold after
  split
  · split <;> omega
  · split
    · split <;> omega
    · split <;> omega

theorem after_of_reset (hreset : Arc.reset p t ∈ n.arcs) (hout : Arc.output t p ∉ n.arcs) :
    n.after t x p = 0 := by
  unfold after
  rw [if_pos hreset, if_neg hout]

theorem after_of_input (hin : Arc.input p t ∈ n.arcs) (hout : Arc.output t p ∉ n.arcs) :
    n.after t x p ≤ x p - 1 := by
  unfold after
  rw [if_neg hout, if_pos hin]
  split <;> omega

namespace Gated

variable [DecidablePred outcome]

/-- One firing: the tokens of each gate and the outcomes so far stay within the openings so far. -/
theorem after_le (h : n.Gated enter outcome gate) (he : n.Enabled t x) {used opened : Nat}
    (hbound : ∀ p, gate p → used + x p ≤ opened) (hp : gate p) :
    used + (if outcome t then 1 else 0) + n.after t x p ≤ opened + if t = enter then 1 else 0 := by
  by_cases ht : outcome t
  · have hne : t ≠ enter := fun e => h.apart (e ▸ ht)
    have hout : ∀ q, gate q → Arc.output t q ∉ n.arcs := fun q hq ha => hne (h.output q hq t ha)
    obtain ⟨q, hq, hin⟩ := h.input t ht
    have hmarked := he.marked q hin
    have hq := hbound q hq
    rw [if_pos ht, if_neg hne]
    rcases h.closes t ht p hp with hin' | hreset
    · have := after_of_input (x := x) hin' (hout p hp)
      have := he.marked p hin'
      have := hbound p hp
      omega
    · rw [after_of_reset hreset (hout p hp)]
      omega
  · rw [if_neg ht]
    have := hbound p hp
    by_cases hopen : t = enter
    · rw [if_pos hopen]
      have := after_le_succ (n := n) (t := t) (x := x) (p := p)
      omega
    · rw [if_neg hopen]
      have := Net.after_le (x := x) fun ha => hopen (h.output p hp t ha)
      omega

/-- Along a run from empty gates there are no more outcomes than openings. -/
theorem countP_le (h : n.Gated enter outcome gate) (hrun : n.Run x ts y) (used opened : Nat)
    (hbound : ∀ p, gate p → used + x p ≤ opened) (hp : gate p) :
    used + ts.countP outcome + y p ≤ opened + ts.countP (· = enter) := by
  induction hrun generalizing used opened with
  | stay => exact hbound p hp
  | @fire x y t ts he _ ih =>
    have hstep := ih _ _ fun q hq => h.after_le he hbound hq
    rw [List.countP_cons, List.countP_cons]
    simp only [decide_eq_true_eq]
    omega

end Gated

/-- A place that was cleared stays empty as long as nothing puts a token on it. -/
theorem eq_zero_of_run (hrun : n.Run x ts y) (hout : ∀ u ∈ ts, Arc.output u p ∉ n.arcs)
    (hx : x p = 0) : y p = 0 := by
  induction hrun with
  | stay => exact hx
  | @fire x y t ts _ _ ih =>
    refine ih (fun u hu => hout u (List.mem_cons_of_mem _ hu)) ?_
    have := after_le (x := x) (hout t List.mem_cons_self)
    omega

end ProcessNet.Net
