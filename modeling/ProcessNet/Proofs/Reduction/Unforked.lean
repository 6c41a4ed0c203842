/-
Nets without forks and nets without merges. Steps clash only where one transition puts tokens into two places
and one place gets tokens from two transitions. So no two matches of a rule clash where there are no such
transitions, or no such places; and a rule that leads somewhere leaves a net of the same kind again.
-/
import ProcessNet.Proofs.Reduction.Independence

namespace ProcessNet

open AcceptingNet

namespace Net

variable {n n₁ : Net} {p p' : PlaceId} {u u' : TransitionId}

/-- No transition puts tokens into two places. -/
def Unforked (n : Net) : Prop :=
  ∀ t p q, Arc.output t p ∈ n.arcs → Arc.output t q ∈ n.arcs → p = q

/-- No place gets tokens from two transitions. -/
def Unmerged (n : Net) : Prop :=
  ∀ t u p, Arc.output t p ∈ n.arcs → Arc.output u p ∈ n.arcs → t = u

theorem unmerged_iff : n.Unmerged ↔ ∀ b ∈ n.arcs, ∀ c ∈ n.arcs, b.kind = .output → c.kind = .output →
    b.place = c.place → b.transition = c.transition := by
  constructor
  · rintro h ⟨p, t, _⟩ hb ⟨_, u, _⟩ hc rfl rfl rfl
    exact h t u p hb hc
  · exact fun h t u p ht hu => h _ ht _ hu rfl rfl rfl

instance (n : Net) : Decidable n.Unmerged := decidable_of_iff _ unmerged_iff.symm

/-- What a transition serves after an agglomeration, it served before or has taken over. -/
theorem Unforked.fused (h : n.Unforked) (hf : n.Fused p u n₁) : n₁.Unforked := by
  intro t q r hq hr
  have ht : t ≠ u := hf.transition_ne hq
  rcases (hf.mem_output ht).1 hq with ⟨hq, hqp⟩ | ⟨htp, hq⟩
  · rcases (hf.mem_output ht).1 hr with ⟨hr, _⟩ | ⟨htp, _⟩
    · exact h t q r hq hr
    · exact absurd (h t q p hq htp) hqp
  · rcases (hf.mem_output ht).1 hr with ⟨hr, hrp⟩ | ⟨_, hr⟩
    · exact absurd (h t r p hr htp) hrp
    · exact h u q r hq hr

/-- What serves a place after an agglomeration served it before, or served `p`, if `u` served the place. -/
theorem Unmerged.fused (h : n.Unmerged) (hf : n.Fused p u n₁) : n₁.Unmerged := by
  intro t v q ht hv
  have htu : t ≠ u := hf.transition_ne ht
  have hvu : v ≠ u := hf.transition_ne hv
  rcases (hf.mem_output htu).1 ht with ⟨ht, _⟩ | ⟨htp, huq⟩
  · rcases (hf.mem_output hvu).1 hv with ⟨hv, _⟩ | ⟨_, huq⟩
    · exact h t v q ht hv
    · exact absurd (h t u q ht huq) htu
  · rcases (hf.mem_output hvu).1 hv with ⟨hv, _⟩ | ⟨hvp, _⟩
    · exact absurd (h v u q hv huq) hvu
    · exact h t v p htp hvp

end Net

namespace AcceptingNet

variable {a a₁ : AcceptingNet} {p p' : PlaceId} {u u' : TransitionId}

/-- To overlap, to make a shortcut and to leave a circle all take a fork. -/
theorem not_clashInto_of_unforked (h : a.net.Unforked) (hne : p' ≠ p) : ¬ a.ClashInto p u p' u' := by
  rintro (⟨⟨t, _, htp, htp', _⟩, _⟩ | ⟨⟨_, hback, t, q, htp, hu'q, htq⟩, _⟩ |
    ⟨⟨hout, _⟩, _, q, hq, huq⟩)
  · exact hne (h t p' p htp' htp)
  · exact hback (h t q p htq htp ▸ hu'q)
  · exact hq (h u q p' huq hout)

/-- They all take a merge, too; a circle does since a step from a place with tokens leads nowhere else. -/
theorem not_clashInto_of_unmerged (h : a.net.Unmerged) (hne : u' ≠ u)
    (hsole : 0 < a.initial.tokens p → ∃ q, a.net.SoleOutput u q) : ¬ a.ClashInto p u p' u' := by
  rintro (⟨⟨_, q, _, _, huq, hu'q⟩, _⟩ | ⟨⟨_, hback, t, q, htp, hu'q, htq⟩, _⟩ |
    ⟨⟨hout, hback⟩, hpos | ⟨t, ht, htp⟩, r, hr, hur⟩)
  · exact hne (h u' u q hu'q huq)
  · exact hback (h t u' q htq hu'q ▸ htp)
  · obtain ⟨q, hq⟩ := hsole hpos
    exact hr (((hq r).1 hur).trans ((hq p').1 hout).symm)
  · exact ht (h t u' p htp hback)

end AcceptingNet

/-- Where `FST`, `FSP` or `A` fuses a place with tokens, its transition leads to one place only. -/
theorem Rule.Fuses.soleOutput {rule : Rule} {a : AcceptingNet} {p : PlaceId} {u : TransitionId}
    (h : rule.Fuses a p u) (hpos : 0 < a.initial.tokens p) : ∃ q, a.net.SoleOutput u q := by
  cases rule with
  | fst =>
    obtain ⟨_, hs⟩ := h
    exact absurd (tokens_of_not_isMarked hs.unmarked).1 (Nat.ne_of_gt hpos)
  | fsp =>
    obtain ⟨q, hs⟩ := h
    exact ⟨q, hs.output⟩
  | a => exact absurd (tokens_of_not_isMarked (SilentStepSite.unmarked h)).1 (Nat.ne_of_gt hpos)
  | fpt | fpp | elt | elp | r => exact h.elim

namespace AcceptingNet

variable {a a₁ : AcceptingNet} {p p' : PlaceId} {u u' : TransitionId} {rule : Rule}

/-- A well-formed net without forks or without merges. -/
structure Plain (a : AcceptingNet) : Prop where
  wellFormed : a.WellFormed
  simple : a.net.Unforked ∨ a.net.Unmerged

/-- No rule makes a fork or a merge. -/
theorem Plain.of_step (h : a.Plain) (hstep : rule.Step a a₁) : a₁.Plain := by
  refine ⟨(convergent rule).wellFormed h.wellFormed hstep, ?_⟩
  rcases step_cases h.wellFormed hstep with ⟨_, _, _, _, hf⟩ | hpruned
  · exact h.simple.imp (fun hfork => hfork.fused hf.net) fun hmerge => hmerge.fused hf.net
  · exact h.simple.imp (fun hfork t p q hp hq => hfork t p q (hpruned.arcs _ hp) (hpruned.arcs _ hq))
      fun hmerge t u p ht hu => hmerge t u p (hpruned.arcs _ ht) (hpruned.arcs _ hu)

theorem Plain.of_steps (h : a.Plain) (hsteps : Relation.ReflTransGen rule.Step a a₁) : a₁.Plain := by
  induction hsteps with
  | refl => exact h
  | tail _ hlast ih => exact ih.of_step hlast

/-- Without forks or without merges no two matches clash. -/
theorem Plain.not_contested (h : a.Plain) (rule : Rule) : ¬ a.Contested rule := by
  rintro ⟨b, hsteps, p, u, p', u', hs, hs', hclash⟩
  obtain ⟨hp, hu⟩ := hclash.ne hs.agglomerable hs'.agglomerable
  rcases (h.of_steps hsteps).simple with hfork | hmerge
  · exact hclash.elim (not_clashInto_of_unforked hfork hp) (not_clashInto_of_unforked hfork hp.symm)
  · exact hclash.elim (not_clashInto_of_unmerged hmerge hu hs.soleOutput)
      (not_clashInto_of_unmerged hmerge hu.symm hs'.soleOutput)

end AcceptingNet

end ProcessNet
