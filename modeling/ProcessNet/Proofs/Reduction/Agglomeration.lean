/-
Agglomeration: a silent transition `u` that does nothing but take tokens from its one place `p` is
left out together with `p`, and whoever put tokens into `p` puts them where `u` would have put them.
Three of the rules are of this kind. The tokens on `p` are counted where `u` would put them; so `u`
changes nothing in these counts, and every other firing does the same to them in both nets. In the
other direction, `u` fires at once whenever it can.
-/
import ProcessNet.Proofs.Net.Simulation

namespace ProcessNet.Net

/-- The silent transition `u` only takes tokens from `p`, and nothing else does so; nothing puts
tokens both into `p` and into an output place of `u`, and these are emptied, and needed empty, by
the same transitions as `p`. -/
structure Agglomerable (n : Net) (p : PlaceId) (u : TransitionId) : Prop where
  silent : n.isSilent u
  input : Arc.input p u ∈ n.arcs
  sole : ∀ q k, k ≠ .output → Arc.mk q u k ∈ n.arcs → q = p ∧ k = .input
  consumer : ∀ t, Arc.input p t ∈ n.arcs → t = u
  noLoop : Arc.output u p ∉ n.arcs
  apart : ∀ t q, Arc.output t p ∈ n.arcs → Arc.output u q ∈ n.arcs → Arc.output t q ∉ n.arcs
  guards : ∀ t q, Arc.output u q ∈ n.arcs →
    (Arc.reset q t ∈ n.arcs ↔ Arc.reset p t ∈ n.arcs) ∧
      (Arc.inhibitor q t ∈ n.arcs ↔ Arc.inhibitor p t ∈ n.arcs)

/-- `n'` is `n` without `p` and `u`; the producers of `p` serve the output places of `u`. -/
structure Agglomerated (n : Net) (p : PlaceId) (u : TransitionId) (n' : Net) : Prop
    extends Agglomerable n p u where
  transition? : ∀ t, n'.transition? t = if t = u then none else n.transition? t
  mem_arcs : ∀ b, b ∈ n'.arcs ↔ (b ∈ n.arcs ∧ b.place ≠ p ∧ b.transition ≠ u) ∨
    (b.kind = .output ∧ Arc.output b.transition p ∈ n.arcs ∧ Arc.output u b.place ∈ n.arcs)

/-- The counts with the tokens of `p` moved to where `u` would put them. -/
def forwarded (n : Net) (p : PlaceId) (u : TransitionId) (x : Tokens) : Tokens := fun q =>
  if q = p then 0 else x q + if Arc.output u q ∈ n.arcs then x p else 0

theorem forwarded_of_empty {n : Net} {p : PlaceId} {u : TransitionId} {x : Tokens} (h : x p = 0) :
    n.forwarded p u x = x := by
  funext q
  unfold forwarded
  by_cases hq : q = p
  · rw [if_pos hq, hq, h]
  · rw [if_neg hq, h, ite_self, Nat.add_zero]

namespace Agglomerable

variable {n : Net} {p : PlaceId} {u : TransitionId}

/-! ## The fused transition -/

theorem after_fused (h : Agglomerable n p u) (x : Tokens) (q : PlaceId) :
    n.after u x q = (if q = p then x p - 1 else x q) + if Arc.output u q ∈ n.arcs then 1 else 0 := by
  have hreset : Arc.reset q u ∉ n.arcs := fun hr => nomatch (h.sole q .reset (by decide) hr).2
  unfold after
  rw [if_neg hreset]
  by_cases hq : q = p
  · rw [if_pos (hq ▸ h.input), if_pos hq, hq]
  · have hin : Arc.input q u ∉ n.arcs := fun hi => hq (h.sole q .input (by decide) hi).1
    rw [if_neg hin, if_neg hq]

theorem enabled_fused (h : Agglomerable n p u) {x : Tokens} (hx : 0 < x p) : n.Enabled u x := by
  refine ⟨(isSilent_iff.1 h.silent).1, fun q hq => ?_, fun q hq => ?_⟩
  · rw [(h.sole q .input (by decide) hq).1]
    exact hx
  · exact nomatch (h.sole q .inhibitor (by decide) hq).2

theorem forwarded_after_fused (h : Agglomerable n p u) {x : Tokens} (hx : 0 < x p) :
    n.forwarded p u (n.after u x) = n.forwarded p u x := by
  funext q
  unfold forwarded
  rw [h.after_fused, h.after_fused, if_neg h.noLoop, if_pos rfl]
  by_cases hq : q = p
  · rw [if_pos hq, if_pos hq]
  · rw [if_neg hq, if_neg hq, if_neg hq]
    by_cases hu : Arc.output u q ∈ n.arcs
    · rw [if_pos hu, if_pos hu, if_pos hu]
      omega
    · rw [if_neg hu, if_neg hu, if_neg hu]

/-- The tokens of `p` can be handed on by firing `u` once for each of them. -/
theorem run_fused (h : Agglomerable n p u) (x : Tokens) :
    ∃ us, n.Run x us (n.forwarded p u x) ∧ n.trace us = [] := by
  induction hk : x p generalizing x with
  | zero => exact ⟨[], by rw [forwarded_of_empty hk]; exact .stay x, rfl⟩
  | succ k ih =>
    have hx : 0 < x p := by omega
    have hp : n.after u x p = k := by
      rw [h.after_fused, if_pos rfl, if_neg h.noLoop]
      omega
    obtain ⟨us, hrun, htr⟩ := ih (n.after u x) hp
    rw [h.forwarded_after_fused hx] at hrun
    refine ⟨u :: us, .fire (h.enabled_fused hx) hrun, ?_⟩
    rw [trace_cons, htr, (isSilent_iff.1 h.silent).2]
    rfl

end Agglomerable

namespace Agglomerated

variable {n n' : Net} {p : PlaceId} {u : TransitionId}

/-! ## The other transitions -/

theorem mem_of_ne_output (h : Agglomerated n p u n') {q : PlaceId} {t : TransitionId} {k : ArcKind}
    (hk : k ≠ .output) (ht : t ≠ u) : Arc.mk q t k ∈ n'.arcs ↔ Arc.mk q t k ∈ n.arcs ∧ q ≠ p := by
  rw [h.mem_arcs]
  constructor
  · rintro (⟨hb, hq, _⟩ | ⟨hk', _⟩)
    · exact ⟨hb, hq⟩
    · exact absurd hk' hk
  · exact fun hb => .inl ⟨hb.1, hb.2, ht⟩

theorem mem_output (h : Agglomerated n p u n') {q : PlaceId} {t : TransitionId} (ht : t ≠ u) :
    Arc.output t q ∈ n'.arcs ↔ (Arc.output t q ∈ n.arcs ∧ q ≠ p) ∨
      (Arc.output t p ∈ n.arcs ∧ Arc.output u q ∈ n.arcs) := by
  rw [h.mem_arcs]
  constructor
  · rintro (⟨hb, hq, _⟩ | ⟨_, hb⟩)
    · exact .inl ⟨hb, hq⟩
    · exact .inr hb
  · rintro (⟨hb, hq⟩ | hb)
    · exact .inl ⟨hb, hq, ht⟩
    · exact .inr ⟨rfl, hb⟩

/-- No arc is left at `p`. -/
theorem place_ne (h : Agglomerated n p u n') {b : Arc} (hb : b ∈ n'.arcs) : b.place ≠ p := by
  rcases (h.mem_arcs b).1 hb with ⟨_, hp, _⟩ | ⟨_, _, hu⟩
  · exact hp
  · exact fun he => h.noLoop (he ▸ hu)

theorem label?_eq (h : Agglomerated n p u n') {t : TransitionId} (ht : t ≠ u) :
    n'.label? t = n.label? t := by
  rw [label?, label?, h.transition?, if_neg ht]

theorem hasTransition_eq (h : Agglomerated n p u n') {t : TransitionId} (ht : t ≠ u) :
    n'.hasTransition t = n.hasTransition t := by
  rw [hasTransition, hasTransition, h.transition?, if_neg ht]

theorem enabled_forwarded (h : Agglomerated n p u n') {x : Tokens} {t : TransitionId} (ht : t ≠ u)
    (he : n.Enabled t x) : n'.Enabled t (n.forwarded p u x) := by
  refine ⟨h.hasTransition_eq ht ▸ he.live, fun q hq => ?_, fun q hq => ?_⟩
  · obtain ⟨hq, hne⟩ := (h.mem_of_ne_output (by decide) ht).1 hq
    unfold forwarded
    rw [if_neg hne]
    have := he.marked q hq
    omega
  · obtain ⟨hq, hne⟩ := (h.mem_of_ne_output (by decide) ht).1 hq
    unfold forwarded
    rw [if_neg hne, he.unmarked q hq, Nat.zero_add]
    split
    · rename_i hu
      exact he.unmarked p ((h.guards t q hu).2.1 hq)
    · rfl

theorem enabled_of_empty (h : Agglomerated n p u n') {x : Tokens} {t : TransitionId}
    (hx : x p = 0) (ht : t ≠ u) (he : n'.Enabled t x) : n.Enabled t x := by
  refine ⟨h.hasTransition_eq ht ▸ he.live, fun q hq => ?_, fun q hq => ?_⟩
  · have hne : q ≠ p := by
      rintro rfl
      exact ht (h.consumer t hq)
    exact he.marked q ((h.mem_of_ne_output (by decide) ht).2 ⟨hq, hne⟩)
  · by_cases hqp : q = p
    · exact hqp ▸ hx
    · exact he.unmarked q ((h.mem_of_ne_output (by decide) ht).2 ⟨hq, hqp⟩)

/-- Any firing but that of `u` does the same to the counts in both nets. -/
theorem forwarded_after (h : Agglomerated n p u n') {x : Tokens} {t : TransitionId} (ht : t ≠ u)
    (he : n.Enabled t x) : n.forwarded p u (n.after t x) = n'.after t (n.forwarded p u x) := by
  funext q
  by_cases hq : q = p
  · subst hq
    have hin : Arc.input q t ∉ n'.arcs := fun hb => h.place_ne hb rfl
    have hout : Arc.output t q ∉ n'.arcs := fun hb => h.place_ne hb rfl
    simp only [forwarded, after, if_neg hin, if_neg hout, if_true, ite_self]
  · have hp : Arc.input p t ∉ n.arcs := fun hb => ht (h.consumer t hb)
    have hin : Arc.input q t ∈ n'.arcs ↔ Arc.input q t ∈ n.arcs :=
      (h.mem_of_ne_output (by decide) ht).trans (and_iff_left hq)
    have hreset : Arc.reset q t ∈ n'.arcs ↔ Arc.reset q t ∈ n.arcs :=
      (h.mem_of_ne_output (by decide) ht).trans (and_iff_left hq)
    have hmarked : Arc.input q t ∈ n.arcs → 0 < x q := he.marked q
    by_cases hu : Arc.output u q ∈ n.arcs
    · -- a target of `u`: emptied together with `p`, and served directly by the producers of `p`
      have hout : Arc.output t q ∈ n'.arcs ↔ Arc.output t q ∈ n.arcs ∨ Arc.output t p ∈ n.arcs := by
        rw [h.mem_output ht, and_iff_left hq, and_iff_left hu]
      have hapart : Arc.output t p ∈ n.arcs → Arc.output t q ∉ n.arcs := fun hb => h.apart t q hb hu
      simp only [forwarded, after, if_neg hq, if_pos hu, if_neg hp, hin, hreset, hout,
        (h.guards t q hu).1]
      by_cases hr : Arc.reset p t ∈ n.arcs <;> by_cases hi : Arc.input q t ∈ n.arcs <;>
        by_cases ho : Arc.output t p ∈ n.arcs <;> by_cases hoq : Arc.output t q ∈ n.arcs <;>
        simp_all <;> omega
    · have hout : Arc.output t q ∈ n'.arcs ↔ Arc.output t q ∈ n.arcs := by
        rw [h.mem_output ht, and_iff_left hq, or_iff_left fun hb => hu hb.2]
      simp only [forwarded, after, if_neg hq, if_neg hu, hin, hreset, hout, Nat.add_zero]

/-! ## Both directions -/

theorem simulates (h : Agglomerated n p u n') :
    n.Simulates n' fun x y => y = n.forwarded p u x := by
  rintro x _ t rfl he
  by_cases ht : t = u
  · subst ht
    refine ⟨[], _, .stay _, ?_, (h.forwarded_after_fused (he.marked p h.input)).symm⟩
    rw [trace_cons, (isSilent_iff.1 h.silent).2]
    rfl
  · refine ⟨[t], _, .fire (h.enabled_forwarded ht he) (.stay _), ?_, (h.forwarded_after ht he).symm⟩
    rw [trace_cons, trace_cons, h.label?_eq ht]
    rfl

theorem simulates_back (h : Agglomerated n p u n') :
    n'.Simulates n fun y x => x = y ∧ y p = 0 := by
  rintro _ y t ⟨rfl, hy⟩ he
  have ht : t ≠ u := by
    rintro rfl
    have hlive := he.live
    rw [hasTransition, h.transition?, if_pos rfl] at hlive
    cases hlive
  have he' := h.enabled_of_empty hy ht he
  -- the token that `t` may have put into `p` is handed on at once
  obtain ⟨us, hrun, htr⟩ := h.run_fused (n.after t y)
  rw [h.forwarded_after ht he', forwarded_of_empty hy] at hrun
  refine ⟨t :: us, _, .fire he' hrun, ?_, rfl, ?_⟩
  · rw [trace_cons, htr, trace_cons, h.label?_eq ht]
    rfl
  · rw [← forwarded_of_empty (n := n) (u := u) hy, ← h.forwarded_after ht he']
    exact if_pos rfl

/-- An agglomeration keeps the language between counts that leave no token on `p` at the end. -/
theorem accepts_iff (h : Agglomerated n p u n') {x y : Tokens} (hy : y p = 0) {w : List String} :
    n.Accepts x y w ↔ n'.Accepts (n.forwarded p u x) y w := by
  constructor
  · intro hw
    refine h.simulates.accepts rfl ?_ hw
    rintro _ rfl
    exact forwarded_of_empty hy
  · intro hw
    obtain ⟨us, hrun, htr⟩ := h.run_fused x
    refine Accepts.prepend hrun htr (h.simulates_back.accepts ⟨rfl, if_pos rfl⟩ ?_ hw)
    rintro _ ⟨rfl, _⟩
    rfl

/-- What is reached after an agglomeration of `p` with `u` was reached before. -/
theorem dominates (h : Agglomerated n p u n') (x : Tokens) :
    n.Dominates x n' (n.forwarded p u x) := by
  intro y' hy'
  obtain ⟨us, hrun, _⟩ := h.run_fused x
  obtain ⟨x', hx', hle⟩ := h.simulates_back.dominates (x := n.forwarded p u x) ⟨rfl, if_pos rfl⟩
    (fun _ _ hR q => Nat.le_of_eq (congrFun hR.1.symm q)) y' hy'
  exact ⟨x', Net.Reachable.trans ⟨us, hrun⟩ hx', hle⟩

end Agglomerated

end ProcessNet.Net
