/-
Token games: tokens lie on cells, a move takes some of them, puts others and may show a label. A game
accepts what is shown on the way from a state in which it starts to a state in which it is finished. Played
backwards it accepts the same, backwards.
-/
import Mathlib.Data.Multiset.AddSub
import Mathlib.Data.Multiset.Count

namespace ProcessNet

/-- A token game on cells of type `α`: which tokens each move takes and puts and what it shows, how the
tokens may lie at first, and how they must lie at last. -/
structure Game (α : Type) where
  move : Multiset α → Multiset α → Option String → Prop
  start : Multiset α → Prop
  finish : Multiset α → Prop

/-! ## Related multisets -/

section Rel

variable {α β γ : Type} {R : α → β → Prop} {S : β → γ → Prop} {s : Multiset α} {t : Multiset β}
  {u : Multiset γ} {a : α} {b : β}

theorem rel_singleton_left : Multiset.Rel R {a} t ↔ ∃ b, R a b ∧ t = {b} := by
  rw [← Multiset.cons_zero, Multiset.rel_cons_left]
  constructor
  · rintro ⟨b, t, hab, ht, rfl⟩
    rw [Multiset.rel_zero_left.1 ht]
    exact ⟨b, hab, rfl⟩
  · rintro ⟨b, hab, rfl⟩
    exact ⟨b, 0, hab, .zero, rfl⟩

theorem rel_singleton_right : Multiset.Rel R s {b} ↔ ∃ a, R a b ∧ s = {a} := by
  rw [← Multiset.rel_flip, rel_singleton_left]
  rfl

theorem rel_comp_iff :
    Multiset.Rel (Relation.Comp R S) s u ↔ ∃ t, Multiset.Rel R s t ∧ Multiset.Rel S t u := by
  constructor
  · intro h
    induction h with
    | zero => exact ⟨0, .zero, .zero⟩
    | cons hac _ ih =>
      obtain ⟨b, hab, hbc⟩ := hac
      obtain ⟨t, hst, htu⟩ := ih
      exact ⟨b ::ₘ t, .cons hab hst, .cons hbc htu⟩
  · rintro ⟨t, hst, htu⟩
    induction hst generalizing u with
    | zero =>
      rw [Multiset.rel_zero_left.1 htu]
      exact .zero
    | cons hab _ ih =>
      obtain ⟨c, u, hbc, hu, rfl⟩ := Multiset.rel_cons_left.1 htu
      exact .cons ⟨_, hab, hbc⟩ (ih hu)

end Rel

namespace Game

variable {α : Type} {G : Game α} {m m' m'' : Multiset α} {w w' : List String}

/-- Moves that lead from one state to another and show the word. -/
inductive Run (G : Game α) : Multiset α → List String → Multiset α → Prop
  | stay (m : Multiset α) : Run G m [] m
  | move {rest ins outs m : Multiset α} {label : Option String} {w : List String} :
    G.move ins outs label → Run G (rest + outs) w m → Run G (rest + ins) (label.toList ++ w) m

/-- The word is shown on some way from a first state to a last one. -/
def Accepts (G : Game α) (w : List String) : Prop :=
  ∃ m m', G.start m ∧ G.finish m' ∧ G.Run m w m'

theorem Run.append (h : G.Run m w m') (k : G.Run m' w' m'') : G.Run m (w ++ w') m'' := by
  induction h with
  | stay => exact k
  | move hmove _ ih =>
    rw [List.append_assoc]
    exact .move hmove (ih k)

theorem Run.single {rest ins outs : Multiset α} {label : Option String} (h : G.move ins outs label) :
    G.Run (rest + ins) label.toList (rest + outs) := by
  rw [← List.append_nil label.toList]
  exact .move h (.stay _)

/-! ## Backwards -/

/-- The game played backwards. -/
def reverse (G : Game α) : Game α where
  move ins outs label := G.move outs ins label
  start := G.finish
  finish := G.start

theorem reverse_toList (label : Option String) : label.toList.reverse = label.toList := by
  cases label <;> rfl

theorem Run.reverse (h : G.Run m w m') : G.reverse.Run m' w.reverse m := by
  induction h with
  | stay m => exact .stay m
  | @move rest ins outs _ label w hmove _ ih =>
    have hback : G.reverse.move outs ins label := hmove
    rw [List.reverse_append, reverse_toList]
    exact ih.append (.single hback)

theorem accepts_reverse_iff : G.reverse.Accepts w.reverse ↔ G.Accepts w := by
  constructor
  · rintro ⟨m, m', hstart, hfinish, hrun⟩
    have hback := hrun.reverse
    rw [List.reverse_reverse] at hback
    exact ⟨m', m, hfinish, hstart, hback⟩
  · rintro ⟨m, m', hstart, hfinish, hrun⟩
    exact ⟨m', m, hfinish, hstart, hrun.reverse⟩

end Game

end ProcessNet
