/-
Nets that enact a token game. Each cell of the game lies on a place, and the live transitions of the net
are the moves of the game: a transition takes a token from the place of each cell that its move takes from,
and puts one on the place of each cell that its move puts one on. Cells that a move takes from share their
places with no other cell. Such a net accepts what the game accepts.
-/
import ProcessNet.Proofs.Game.Basic
import ProcessNet.Proofs.Net.Simulation

namespace ProcessNet.Net

/-- The counts of a multiset of places. -/
def tokensOf (m : Multiset PlaceId) : Tokens := fun p => m.count p

/-- The transition takes one token from each of the places `ins`, puts one on each of the places `outs`,
and does nothing else. -/
structure Carries (n : Net) (t : TransitionId) (ins outs : Multiset PlaceId) : Prop where
  nodup_ins : ins.Nodup
  nodup_outs : outs.Nodup
  input : ∀ p, p ∈ ins ↔ Arc.input p t ∈ n.arcs
  output : ∀ p, p ∈ outs ↔ Arc.output t p ∈ n.arcs
  inhibitor : ∀ p, Arc.inhibitor p t ∉ n.arcs
  reset : ∀ p, Arc.reset p t ∉ n.arcs

variable {n : Net} {t : TransitionId} {ins outs rest m : Multiset PlaceId} {x y : Tokens}

theorem Carries.enabled (h : n.Carries t ins outs) (ht : n.hasTransition t) :
    n.Enabled t (tokensOf (rest + ins)) where
  live := ht
  marked p hp := Multiset.count_pos.2 (Multiset.mem_add.2 (.inr ((h.input p).2 hp)))
  unmarked p hp := absurd hp (h.inhibitor p)

theorem Carries.exists_rest (h : n.Carries t ins outs) (ht : n.Enabled t (tokensOf m)) :
    ∃ rest, m = rest + ins := by
  have hle : ins ≤ m := (Multiset.le_iff_subset h.nodup_ins).2 fun p hp =>
    Multiset.count_pos.1 (ht.marked p ((h.input p).1 hp))
  obtain ⟨rest, rfl⟩ := Multiset.le_iff_exists_add.1 hle
  exact ⟨rest, Multiset.add_comm _ _⟩

theorem Carries.after_eq (h : n.Carries t ins outs) :
    n.after t (tokensOf (rest + ins)) = tokensOf (rest + outs) := by
  funext p
  simp only [after, tokensOf, if_neg (h.reset p), ← h.input, ← h.output, Multiset.count_add]
  rw [Multiset.count_eq_of_nodup h.nodup_outs, Multiset.count_eq_of_nodup h.nodup_ins]
  split <;> simp

/-- The net plays the game `G`, whose cells lie on its places. -/
structure Enacts {α : Type} (n : Net) (lies : α → PlaceId → Prop) (G : Game α) : Prop where
  functional : ∀ a p q, lies a p → lies a q → p = q
  told : ∀ t, n.hasTransition t → ∃ ins outs places places',
    G.move ins outs (n.label? t) ∧ Multiset.Rel lies ins places ∧ Multiset.Rel lies outs places' ∧
      n.Carries t places places'
  made : ∀ ins outs label, G.move ins outs label → ∃ t places places',
    n.hasTransition t ∧ n.label? t = label ∧ Multiset.Rel lies ins places ∧
      Multiset.Rel lies outs places' ∧ n.Carries t places places'
  own : ∀ ins outs label, G.move ins outs label → ∀ a ∈ ins, ∀ b p, lies a p → lies b p → a = b

namespace Enacts

variable {α : Type} {lies : α → PlaceId → Prop} {G : Game α} {s s' : Multiset α} {w : List String}

theorem eq_of_rel {m' : Multiset PlaceId} (h : n.Enacts lies G) (hm : Multiset.Rel lies s m)
    (hm' : Multiset.Rel lies s m') : m = m' := by
  refine Multiset.rel_eq.1 ((rel_comp_iff.2 ⟨s, Multiset.rel_flip.2 hm, hm'⟩).mono ?_)
  rintro p _ q _ ⟨a, hp, hq⟩
  exact h.functional a p q hp hq

/-- What the game plays, the net plays. -/
theorem exists_run (h : n.Enacts lies G) (hrun : G.Run s w s') (hm : Multiset.Rel lies s m) :
    ∃ m' ts, Multiset.Rel lies s' m' ∧ n.Run (tokensOf m) ts (tokensOf m') ∧ n.trace ts = w := by
  induction hrun generalizing m with
  | stay => exact ⟨m, [], hm, .stay _, rfl⟩
  | move hmove _ ih =>
    obtain ⟨rest, ins, hrest, hins, rfl⟩ := Multiset.rel_add_left.1 hm
    obtain ⟨t, places, places', ht, rfl, hin, hout, hcarries⟩ := h.made _ _ _ hmove
    obtain rfl := h.eq_of_rel hins hin
    obtain ⟨m', ts, hm', hts, rfl⟩ := ih (hrest.add hout)
    refine ⟨m', t :: ts, hm', .fire (hcarries.enabled ht) ?_, trace_cons n t ts⟩
    rw [hcarries.after_eq]
    exact hts

/-- What the net plays, the game plays. -/
theorem exists_play (h : n.Enacts lies G) {ts : List TransitionId} (hrun : n.Run x ts y)
    (hx : tokensOf m = x) (hm : Multiset.Rel lies s m) :
    ∃ s' m', Multiset.Rel lies s' m' ∧ tokensOf m' = y ∧ G.Run s (n.trace ts) s' := by
  induction hrun generalizing m s with
  | stay => exact ⟨s, m, hm, hx, .stay s⟩
  | @fire _ _ t ts ht _ ih =>
    subst hx
    obtain ⟨ins, outs, places, places', hmove, hin, hout, hcarries⟩ := h.told t ht.live
    obtain ⟨rest, rfl⟩ := hcarries.exists_rest ht
    obtain ⟨rest₀, ins₀, hrest, hins, rfl⟩ := Multiset.rel_add_right.1 hm
    -- The tokens on these places are those of the cells that the move takes from.
    obtain rfl : ins = ins₀ := by
      refine Multiset.rel_eq.1 ((rel_comp_iff.2 ⟨places, hin, Multiset.rel_flip.2 hins⟩).mono ?_)
      rintro a ha b _ ⟨p, hap, hbp⟩
      exact h.own _ _ _ hmove a ha b p hap hbp
    obtain ⟨s', m', hm', hy, hplay⟩ := ih hcarries.after_eq.symm (hrest.add hout)
    rw [trace_cons]
    exact ⟨s', m', hm', hy, .move hmove hplay⟩

/-- A net accepts what the game accepts that it plays, if it starts as the game does, and what is on its
places at last is just what the game is finished with. -/
theorem accepts_iff (h : n.Enacts lies G) (hsome : ∃ s, G.start s)
    (hstart : ∀ s, G.start s → ∃ m, Multiset.Rel lies s m ∧ tokensOf m = x)
    (hfinish : ∀ s m, Multiset.Rel lies s m → (tokensOf m = y ↔ G.finish s)) :
    n.Accepts x y w ↔ G.Accepts w := by
  constructor
  · rintro ⟨ts, hrun, rfl⟩
    obtain ⟨s, hs⟩ := hsome
    obtain ⟨m, hm, hx⟩ := hstart s hs
    obtain ⟨s', m', hm', hy, hplay⟩ := h.exists_play hrun hx hm
    exact ⟨s, s', hs, (hfinish s' m' hm').1 hy, hplay⟩
  · rintro ⟨s, s', hs, hs', hplay⟩
    obtain ⟨m, hm, rfl⟩ := hstart s hs
    obtain ⟨m', ts, hm', hrun, hw⟩ := h.exists_run hplay hm
    obtain rfl := (hfinish s' m' hm').2 hs'
    exact ⟨ts, hrun, hw⟩

end Enacts

end ProcessNet.Net
