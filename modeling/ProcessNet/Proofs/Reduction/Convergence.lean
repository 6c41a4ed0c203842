/-
Steps whose order does not matter. If two steps from one accepting net can always be joined, up to ids, and
every step makes the net lighter, then all ways that come to an end come to the same end, up to ids (Newman's
lemma). A way may also end where a rule matches and cannot be applied; then all ways end so.
-/
import ProcessNet.Proofs.Reduction.Faithful
import ProcessNet.Proofs.Reduction.Renaming

namespace ProcessNet.AcceptingNet

variable {a a' b b' c w z : AcceptingNet}

/-! ## Nets that differ in ids only -/

/-- Well-formed nets that differ in ids only. -/
structure Similar (a b : AcceptingNet) : Prop where
  left : a.WellFormed
  right : b.WellFormed
  renamed : ∃ f g, Renamed f g a b

namespace Similar

theorem refl (h : a.WellFormed) : Similar a a := ⟨h, h, _, _, .refl a⟩

theorem symm (h : Similar a b) : Similar b a := by
  obtain ⟨f, g, hfg⟩ := h.renamed
  exact ⟨h.right, h.left, _, _, hfg.symm⟩

theorem trans (h : Similar a b) (k : Similar b c) : Similar a c := by
  obtain ⟨f, g, hfg⟩ := h.renamed
  obtain ⟨f', g', hfg'⟩ := k.renamed
  exact ⟨h.left, k.right, _, _, hfg.trans hfg'⟩

theorem isomorphic (h : Similar a b) : Isomorphic a b := by
  obtain ⟨f, g, hfg⟩ := h.renamed
  exact ⟨f, g, hfg.isomorphism⟩

theorem measure_eq (h : Similar a b) : b.net.measure = a.net.measure := by
  obtain ⟨f, g, hfg⟩ := h.renamed
  exact hfg.measure_eq h.left.consistent h.right.consistent

end Similar

theorem Isomorphic.similar (h : Isomorphic a b) (ha : a.WellFormed) (hb : b.WellFormed) :
    Similar a b := by
  obtain ⟨f, g, hfg⟩ := h
  exact ⟨ha, hb, hfg.exists_renamed ha.consistent hb.consistent⟩

/-! ## Steps -/

/-- Steps that keep nets well-formed, make them lighter and do not see ids; `Stuck` nets are those where a
further step is due but cannot be taken. -/
structure Blind (Step : AcceptingNet → AcceptingNet → Prop) (Stuck : AcceptingNet → Prop) : Prop where
  wellFormed : ∀ {a a'}, a.WellFormed → Step a a' → a'.WellFormed
  lighter : ∀ {a a'}, a.WellFormed → Step a a' → a'.net.weight < a.net.weight
  similar : ∀ {a b a'}, Similar a b → Step a a' → ∃ b', Step b b' ∧ Similar a' b'
  stuck : ∀ {a b}, Similar a b → Stuck a → Stuck b

/-- No step is due. -/
def Finished (Step : AcceptingNet → AcceptingNet → Prop) (Stuck : AcceptingNet → Prop)
    (a : AcceptingNet) : Prop :=
  ¬ Stuck a ∧ ∀ a', ¬ Step a a'

/-- Where `Sound` holds, steps stay stuck, and two of them can be joined unless one of them gets stuck. -/
structure Convergent (Step : AcceptingNet → AcceptingNet → Prop) (Stuck Sound : AcceptingNet → Prop) :
    Prop extends Blind Step Stuck where
  sound : ∀ {a a'}, a.WellFormed → Sound a → Step a a' → Sound a'
  stays : ∀ {a a'}, a.WellFormed → Sound a → Stuck a → Step a a' → Stuck a'
  joins : ∀ {a a₁ a₂}, a.WellFormed → Sound a → Step a a₁ → Step a a₂ → Stuck a₁ ∨
    ∃ b₁ b₂, Relation.ReflTransGen Step a₁ b₁ ∧ Relation.ReflTransGen Step a₂ b₂ ∧ Similar b₁ b₂

open Relation (ReflTransGen)

variable {Step : AcceptingNet → AcceptingNet → Prop} {Stuck Sound : AcceptingNet → Prop}

namespace Blind

variable (h : Blind Step Stuck)

include h

theorem wellFormed_of_steps (ha : a.WellFormed) (hsteps : ReflTransGen Step a a') :
    a'.WellFormed := by
  induction hsteps with
  | refl => exact ha
  | tail _ hlast ih => exact h.wellFormed ih hlast

/-- Steps from similar nets can be taken side by side. -/
theorem exists_steps (hab : Similar a b) (hsteps : ReflTransGen Step a a') :
    ∃ b', ReflTransGen Step b b' ∧ Similar a' b' := by
  induction hsteps with
  | refl => exact ⟨b, .refl, hab⟩
  | tail _ hlast ih =>
    obtain ⟨b₁, hb₁, hsim⟩ := ih
    obtain ⟨b₂, hb₂, hsim₂⟩ := h.similar hsim hlast
    exact ⟨b₂, hb₁.tail hb₂, hsim₂⟩

theorem finished (hab : Similar a b) (ha : Finished Step Stuck a) : Finished Step Stuck b := by
  refine ⟨fun hb => ha.1 (h.stuck hab.symm hb), fun b' hb => ?_⟩
  obtain ⟨a', ha', _⟩ := h.similar hab.symm hb
  exact ha.2 a' ha'

end Blind

namespace Convergent

variable (h : Convergent Step Stuck Sound)

include h

theorem sound_of_steps (ha : a.WellFormed) (hsound : Sound a) (hsteps : ReflTransGen Step a a') :
    Sound a' := by
  induction hsteps with
  | refl => exact hsound
  | tail hsteps hlast ih => exact h.sound (h.wellFormed_of_steps ha hsteps) ih hlast

/-- Once stuck, always stuck. -/
theorem stuck_of_steps (ha : a.WellFormed) (hsound : Sound a) (hstuck : Stuck a)
    (hsteps : ReflTransGen Step a a') : Stuck a' := by
  induction hsteps with
  | refl => exact hstuck
  | tail hsteps hlast ih =>
    exact h.stays (h.wellFormed_of_steps ha hsteps) (h.sound_of_steps ha hsound hsteps) ih hlast

/-- If one way comes to an end, every way can be continued to that end, up to ids. -/
theorem exists_finish (ha : a.WellFormed) (hsound : Sound a) (hz : ReflTransGen Step a z)
    (hfinished : Finished Step Stuck z) (hw : ReflTransGen Step a w) :
    ∃ z', ReflTransGen Step w z' ∧ Similar z z' := by
  -- by the weight of the net where the two ways part
  induction hk : a.net.weight using Nat.strong_induction_on generalizing a z w with
  | h k ih =>
    rcases hz.cases_head with rfl | ⟨a₁, h₁, hz₁⟩
    · rcases hw.cases_head with rfl | ⟨a₂, h₂, _⟩
      · exact ⟨a, .refl, .refl ha⟩
      · exact absurd h₂ (hfinished.2 a₂)
    rcases hw.cases_head with rfl | ⟨a₂, h₂, hw₂⟩
    · exact ⟨z, hz, .refl (h.wellFormed_of_steps ha hz)⟩
    have hwf₁ := h.wellFormed ha h₁
    have hwf₂ := h.wellFormed ha h₂
    rcases h.joins ha hsound h₁ h₂ with hstuck | ⟨b₁, b₂, hb₁, hb₂, hb⟩
    · exact absurd (h.stuck_of_steps hwf₁ (h.sound ha hsound h₁) hstuck hz₁) hfinished.1
    obtain ⟨z₁, hz₁, hsim₁⟩ := ih _ (hk ▸ h.lighter ha h₁) hwf₁ (h.sound ha hsound h₁) hz₁ hfinished
      hb₁ rfl
    obtain ⟨z₂, hz₂, hsim₂⟩ := h.exists_steps hb hz₁
    have hend := hsim₁.trans hsim₂
    obtain ⟨z', hz', hsim'⟩ := ih _ (hk ▸ h.lighter ha h₂) hwf₂ (h.sound ha hsound h₂)
      (hb₂.trans hz₂) (h.finished hend hfinished) hw₂ rfl
    exact ⟨z', hz', hend.trans hsim'⟩

/-- No way from a net with an end gets stuck. -/
theorem not_stuck (ha : a.WellFormed) (hsound : Sound a) (hz : ReflTransGen Step a z)
    (hfinished : Finished Step Stuck z) (hw : ReflTransGen Step a w) : ¬ Stuck w := by
  intro hstuck
  obtain ⟨z', hz', hsim⟩ := h.exists_finish ha hsound hz hfinished hw
  have hstuck' := h.stuck_of_steps (h.wellFormed_of_steps ha hw) (h.sound_of_steps ha hsound hw)
    hstuck hz'
  exact hfinished.1 (h.stuck hsim.symm hstuck')

/-- The ends of ways from similar nets are similar. -/
theorem similar_of_finished (hab : Similar a b) (hsound : Sound a) (hz : ReflTransGen Step a z)
    (hfinished : Finished Step Stuck z) (hw : ReflTransGen Step b w)
    (hfinished' : Finished Step Stuck w) : Similar z w := by
  obtain ⟨w₁, hw₁, hsim⟩ := h.exists_steps hab.symm hw
  obtain ⟨z', hz', hend⟩ := h.exists_finish hab.left hsound hz hfinished hw₁
  rcases hz'.cases_head with rfl | ⟨x, hx, _⟩
  · exact hend.trans hsim.symm
  · exact absurd hx ((h.finished hsim hfinished').2 x)

/-- Of two similar nets, one with an end does not let a way from the other one get stuck. -/
theorem not_stuck_of_similar (hab : Similar a b) (hsound : Sound a) (hz : ReflTransGen Step a z)
    (hfinished : Finished Step Stuck z) (hw : ReflTransGen Step b w) : ¬ Stuck w := by
  obtain ⟨w₁, hw₁, hsim⟩ := h.exists_steps hab.symm hw
  exact fun hstuck => h.not_stuck hab.left hsound hz hfinished hw₁ (h.stuck hsim hstuck)

/-- The same the other way round, where the net with the end need not be the sound one. -/
theorem not_stuck_of_finished (hab : Similar a b) (hsound : Sound a) (hz : ReflTransGen Step b z)
    (hfinished : Finished Step Stuck z) (hw : ReflTransGen Step a w) : ¬ Stuck w := by
  obtain ⟨z₁, hz₁, hsim⟩ := h.exists_steps hab.symm hz
  exact h.not_stuck hab.left hsound hz₁ (h.finished hsim hfinished) hw

end Convergent

end ProcessNet.AcceptingNet
