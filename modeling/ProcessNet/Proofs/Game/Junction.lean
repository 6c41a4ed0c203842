/-
Junctions. Behind a junction all tokens of its branches lie on one cell, where a silent move brings them.
If no move of a game tells one branch from another, a junction in front of the moves that take from the
branches is not seen: a run passes the junction right before the token is needed, and a token that has
passed it stands for a token on some branch. A junction behind moves is such a junction of the game played
backwards.
-/
import ProcessNet.Proofs.Game.Basic

namespace ProcessNet.Game

variable {α : Type} {G G' : Game α} {branch : α → Prop} {c a b : α} {m m' i i' o : Multiset α}
  {w : List String}

/-- Where a token of the game without the junction is taken from when the junction is there. -/
def Via (branch : α → Prop) (c : α) (a b : α) : Prop :=
  (branch a ∧ b = c) ∨ (¬ branch a ∧ a ≠ c ∧ b = a)

/-- Where a token of the game without the junction may lie when the junction is there. -/
def Late (branch : α → Prop) (c : α) (a b : α) : Prop :=
  (branch a ∧ b = c) ∨ (a ≠ c ∧ b = a)

/-- `G'` is `G` with a junction: tokens of the branches are taken from the cell `c` behind it. -/
structure Joins (G G' : Game α) (branch : α → Prop) (c : α) : Prop where
  move_iff : ∀ ins outs label, G'.move ins outs label ↔
    (∃ a, branch a ∧ ins = {a} ∧ outs = {c} ∧ label = none) ∨
    ∃ ins₀, G.move ins₀ outs label ∧ Multiset.Rel (Via branch c) ins₀ ins
  start_iff : ∀ m, G'.start m ↔ G.start m
  finish_iff : ∀ m, G'.finish m ↔ ∃ m₀, G.finish m₀ ∧ Multiset.Rel (Via branch c) m₀ m
  /-- A token of one branch is as good as that of another. -/
  move_of_rel : ∀ ins₀ ins₁ ins outs label, G.move ins₀ outs label →
    Multiset.Rel (Via branch c) ins₀ ins → Multiset.Rel (Via branch c) ins₁ ins →
    G.move ins₁ outs label
  finish_of_rel : ∀ m₀ m₁ m, G.finish m₀ → Multiset.Rel (Via branch c) m₀ m →
    Multiset.Rel (Via branch c) m₁ m → G.finish m₁
  not_branch : ¬ branch c
  fresh_move : ∀ ins outs label, G.move ins outs label → c ∉ ins ∧ c ∉ outs
  fresh_start : ∀ m, G.start m → c ∉ m
  fresh_finish : ∀ m, G.finish m → c ∉ m

theorem exists_rel_via (h : c ∉ m) : ∃ m', Multiset.Rel (Via branch c) m m' := by
  induction m using Multiset.induction with
  | empty => exact ⟨0, .zero⟩
  | cons a m ih =>
    rw [Multiset.mem_cons, not_or] at h
    obtain ⟨m', hm⟩ := ih h.2
    by_cases ha : branch a
    · exact ⟨c ::ₘ m', .cons (.inl ⟨ha, rfl⟩) hm⟩
    · exact ⟨a ::ₘ m', .cons (.inr ⟨ha, Ne.symm h.1, rfl⟩) hm⟩

theorem rel_late_refl (h : c ∉ m) : Multiset.Rel (Late branch c) m m :=
  Multiset.rel_refl_of_refl_on fun _ ha => .inr ⟨fun he => h (he ▸ ha), rfl⟩

/-- Late tokens in a place that is not before the junction are where they are taken from. -/
theorem rel_via_of_late (h : Multiset.Rel (Late branch c) m m') (hm : ∀ b ∈ m', ¬ branch b) :
    Multiset.Rel (Via branch c) m m' := by
  refine h.mono fun a _ b hb hab => ?_
  rcases hab with hab | ⟨hne, rfl⟩
  · exact .inl hab
  · exact .inr ⟨hm _ hb, hne, rfl⟩

theorem not_branch_of_rel_via (hc : ¬ branch c) (h : Multiset.Rel (Via branch c) m m') :
    ∀ b ∈ m', ¬ branch b := by
  intro b hb
  obtain ⟨a, _, hab⟩ := Multiset.exists_mem_of_rel_of_mem (Multiset.rel_flip.2 h) hb
  rcases hab with ⟨_, rfl⟩ | ⟨hnot, _, rfl⟩
  · exact hc
  · exact hnot

namespace Joins

/-- Tokens pass the junction where they have to. -/
theorem run_passing (h : Joins G G' branch c) (hi : Multiset.Rel (Via branch c) i i')
    (rest : Multiset α) : G'.Run (rest + i) [] (rest + i') := by
  induction hi generalizing rest with
  | zero => exact .stay _
  | @cons a b i i' hab _ ih =>
    have hrest : G'.Run (rest + (a ::ₘ i)) [] (rest + (a ::ₘ i')) := by
      have := ih (rest + {a})
      rwa [Multiset.add_assoc, Multiset.add_assoc, Multiset.singleton_add,
        Multiset.singleton_add] at this
    rcases hab with ⟨ha, rfl⟩ | ⟨_, _, rfl⟩
    · have hpass : G'.move {a} {b} none := (h.move_iff _ _ _).2 (.inl ⟨a, ha, rfl, rfl, rfl⟩)
      have hlast : G'.Run (rest + i' + {a}) [] (rest + i' + {b}) := .single hpass
      rw [Multiset.add_assoc, Multiset.add_assoc, Multiset.add_comm i', Multiset.add_comm i',
        Multiset.singleton_add, Multiset.singleton_add] at hlast
      exact hrest.append hlast
    · exact hrest

/-- What is accepted without the junction is accepted with it. -/
theorem exists_run (h : Joins G G' branch c) (hrun : G.Run m w m') (hfinish : G.finish m') :
    ∃ m'', G'.finish m'' ∧ G'.Run m w m'' := by
  induction hrun with
  | stay m =>
    obtain ⟨m'', hm⟩ : ∃ m'', Multiset.Rel (Via branch c) m m'' :=
      exists_rel_via (h.fresh_finish m hfinish)
    have hrun := h.run_passing hm 0
    rw [Multiset.zero_add, Multiset.zero_add] at hrun
    exact ⟨m'', (h.finish_iff m'').2 ⟨m, hfinish, hm⟩, hrun⟩
  | @move rest ins outs _ label w hmove _ ih =>
    obtain ⟨m'', hlast, hrun⟩ := ih hfinish
    obtain ⟨ins', hins⟩ : ∃ ins', Multiset.Rel (Via branch c) ins ins' :=
      exists_rel_via (h.fresh_move _ _ _ hmove).1
    have hmove' : G'.move ins' outs label := (h.move_iff _ _ _).2 (.inr ⟨ins, hmove, hins⟩)
    exact ⟨m'', hlast, (h.run_passing hins rest).append (.move hmove' hrun)⟩

/-- What is accepted with the junction is accepted without it, whichever branches the tokens behind the
junction came from. -/
theorem exists_run_of_late (h : Joins G G' branch c) (hrun : G'.Run m' w i) (hfinish : G'.finish i)
    (hlate : Multiset.Rel (Late branch c) m m') : ∃ m'', G.finish m'' ∧ G.Run m w m'' := by
  induction hrun generalizing m with
  | stay m' =>
    obtain ⟨m₀, hm₀, hvia⟩ := (h.finish_iff m').1 hfinish
    have hm := rel_via_of_late hlate (not_branch_of_rel_via h.not_branch hvia)
    exact ⟨m, h.finish_of_rel m₀ m m' hm₀ hvia hm, .stay m⟩
  | @move rest ins outs _ label w hmove _ ih =>
    obtain ⟨rest₀, ins₁, hrest, hins, rfl⟩ := Multiset.rel_add_right.1 hlate
    rcases (h.move_iff _ _ _).1 hmove with ⟨a, ha, rfl, rfl, rfl⟩ | ⟨ins₀, hmove₀, hvia⟩
    · obtain ⟨a', hlate', rfl⟩ := rel_singleton_right.1 hins
      refine ih hfinish (hrest.add (rel_singleton_right.2 ⟨a', .inl ⟨?_, rfl⟩, rfl⟩))
      rcases hlate' with ⟨_, rfl⟩ | ⟨_, rfl⟩
      · exact absurd ha h.not_branch
      · exact ha
    · have hins₁ := rel_via_of_late hins (not_branch_of_rel_via h.not_branch hvia)
      have hmove₁ := h.move_of_rel ins₀ ins₁ ins outs label hmove₀ hvia hins₁
      obtain ⟨m'', hlast, hrun⟩ := ih hfinish
        (hrest.add (rel_late_refl (h.fresh_move _ _ _ hmove₀).2))
      exact ⟨m'', hlast, .move hmove₁ hrun⟩

theorem accepts_iff (h : Joins G G' branch c) (w : List String) : G'.Accepts w ↔ G.Accepts w := by
  constructor
  · rintro ⟨m, m', hstart, hfinish, hrun⟩
    have hstart := (h.start_iff m).1 hstart
    obtain ⟨m'', hlast, hrun⟩ := h.exists_run_of_late hrun hfinish
      (rel_late_refl (h.fresh_start m hstart))
    exact ⟨m, m'', hstart, hlast, hrun⟩
  · rintro ⟨m, m', hstart, hfinish, hrun⟩
    obtain ⟨m'', hlast, hrun⟩ := h.exists_run hrun hfinish
    exact ⟨m, m'', (h.start_iff m).2 hstart, hlast, hrun⟩

/-- A junction behind moves. -/
theorem accepts_iff_of_reverse (h : Joins G.reverse G'.reverse branch c) (w : List String) :
    G'.Accepts w ↔ G.Accepts w := by
  rw [← accepts_reverse_iff, h.accepts_iff, accepts_reverse_iff]

end Joins

end ProcessNet.Game
