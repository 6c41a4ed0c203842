/-
Simulations between nets. When every firing of one net is answered by a run of another net that
shows the same labels and keeps the two nets' tokens related, the second net accepts what the first
one does.
-/
import ProcessNet.Net.TokenGame

namespace ProcessNet.Net

variable {n n' : Net}

theorem trace_append (n : Net) (ts us : List TransitionId) :
    n.trace (ts ++ us) = n.trace ts ++ n.trace us :=
  List.filterMap_append

theorem trace_cons (n : Net) (t : TransitionId) (ts : List TransitionId) :
    n.trace (t :: ts) = (n.label? t).toList ++ n.trace ts := by
  unfold trace
  rw [List.filterMap_cons]
  cases n.label? t <;> rfl

theorem isSilent_iff {t : TransitionId} :
    n.isSilent t ↔ n.hasTransition t ∧ n.label? t = none := by
  unfold isSilent hasTransition label?
  cases n.transition? t with
  | none => simp
  | some x => simp [Transition.isSilent]

theorem Accepts.prepend {x y z : Tokens} {w : List String} {ts : List TransitionId}
    (hrun : n.Run x ts y) (hsilent : n.trace ts = []) (h : n.Accepts y z w) : n.Accepts x z w := by
  obtain ⟨us, hus, rfl⟩ := h
  exact ⟨ts ++ us, hrun.append hus, by rw [trace_append, hsilent, List.nil_append]⟩

/-- Every firing of `n` is answered by a run of `n'` that shows the same and ends in related
counts. -/
def Simulates (n n' : Net) (R : Tokens → Tokens → Prop) : Prop :=
  ∀ x y t, R x y → n.Enabled t x →
    ∃ ts y', n'.Run y ts y' ∧ n'.trace ts = n.trace [t] ∧ R (n.after t x) y'

theorem Simulates.run {R : Tokens → Tokens → Prop} (h : n.Simulates n' R) {x x' y : Tokens}
    {ts : List TransitionId} (hR : R x y) (hrun : n.Run x ts x') :
    ∃ us y', n'.Run y us y' ∧ n'.trace us = n.trace ts ∧ R x' y' := by
  induction hrun generalizing y with
  | stay x => exact ⟨[], y, .stay y, rfl, hR⟩
  | @fire x x' t ts he _ ih =>
    obtain ⟨us, y₁, hus, htr, hR₁⟩ := h x y t hR he
    obtain ⟨vs, y₂, hvs, htr₂, hR₂⟩ := ih hR₁
    refine ⟨us ++ vs, y₂, hus.append hvs, ?_, hR₂⟩
    rw [trace_append, htr, htr₂, ← trace_append]
    rfl

/-- What `n` accepts, `n'` accepts from related counts, when the last counts determine those of
`n'`. -/
theorem Simulates.accepts {R : Tokens → Tokens → Prop} (h : n.Simulates n' R)
    {x xf y yf : Tokens} (hR : R x y) (hend : ∀ y', R xf y' → y' = yf) {w : List String}
    (hw : n.Accepts x xf w) : n'.Accepts y yf w := by
  obtain ⟨ts, hrun, rfl⟩ := hw
  obtain ⟨us, y', hus, htr, hR'⟩ := h.run hR hrun
  exact ⟨us, hend y' hR' ▸ hus, htr⟩

/-- Every marking that `n'` reaches from `y` is matched by one with at least as many tokens on each
place that `n` reaches from `x`. -/
def Dominates (n : Net) (x : Tokens) (n' : Net) (y : Tokens) : Prop :=
  ∀ y', n'.Reachable y y' → ∃ x', n.Reachable x x' ∧ ∀ p, y' p ≤ x' p

theorem Simulates.dominates {R : Tokens → Tokens → Prop} (h : n'.Simulates n R) {x y : Tokens}
    (hR : R y x) (hle : ∀ y x, R y x → ∀ p, y p ≤ x p) : n.Dominates x n' y := by
  rintro y' ⟨ts, hrun⟩
  obtain ⟨us, x', hus, _, hR'⟩ := h.run hR hrun
  exact ⟨x', ⟨us, hus⟩, hle y' x' hR'⟩

end ProcessNet.Net
