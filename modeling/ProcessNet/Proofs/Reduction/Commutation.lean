/-
Edits that do not see each other. Two agglomerations lead to the same arcs and the same tokens in either
order, since both orders let tokens take the same ways; and if there is room for the tokens in one order, there
is in the other. To leave out one of two twins is, up to a swap, to leave out the other one.
-/
import ProcessNet.Proofs.Reduction.Renaming
import ProcessNet.Proofs.Reduction.Requeue

namespace ProcessNet

namespace Net

variable {n n₁ n₂ m : Net} {p p' q : PlaceId} {u u' t : TransitionId}

/-! ## Two agglomerations -/

/-- A second agglomeration, of `p'` with `u'`, is at other nodes than the first one. -/
theorem Fused.apart_of_agglomerable (h : n.Fused p u n₁) (k : n₁.Agglomerable p' u') :
    p' ≠ p ∧ u' ≠ u :=
  ⟨h.place_ne k.input, h.transition_ne k.input⟩

/-- Two steps do not lead round in a circle, or the second one would be a loop after the first. -/
theorem Fused.not_circle (h : n.Fused p u n₁) (k : n₁.Agglomerable p' u')
    (hout : Arc.output u p' ∈ n.arcs) : Arc.output u' p ∉ n.arcs := fun hback =>
  k.noLoop ((h.mem_output (h.apart_of_agglomerable k).2).2 (.inr ⟨hback, hout⟩))

/-- The arcs after `p` was fused with `u` and `p'` with `u'`, told alike for both. -/
theorem Fused.mem_arcs_of_fused (h : n.Fused p u n₁) (k : n₁.Fused p' u' m)
    (hk : n.Agglomerable p' u') (b : Arc) :
    b ∈ m.arcs ↔
      (b ∈ n.arcs ∧ b.place ≠ p ∧ b.place ≠ p' ∧ b.transition ≠ u ∧ b.transition ≠ u') ∨
      (b.kind = .output ∧
        ((Arc.output b.transition p ∈ n.arcs ∧ Arc.output u b.place ∈ n.arcs ∧
            b.transition ≠ u' ∧ b.place ≠ p') ∨
          (Arc.output b.transition p' ∈ n.arcs ∧ Arc.output u' b.place ∈ n.arcs ∧
            b.transition ≠ u ∧ b.place ≠ p) ∨
          (Arc.output b.transition p ∈ n.arcs ∧ Arc.output u p' ∈ n.arcs ∧
            Arc.output u' b.place ∈ n.arcs) ∨
          (Arc.output b.transition p' ∈ n.arcs ∧ Arc.output u' p ∈ n.arcs ∧
            Arc.output u b.place ∈ n.arcs))) := by
  obtain ⟨hp, hu⟩ := h.apart_of_agglomerable k.toAgglomerable
  have hcircle := h.not_circle k.toAgglomerable
  have hin := h.mem_arcs b
  have hinto : Arc.output b.transition p' ∈ n₁.arcs ↔
      (Arc.output b.transition p' ∈ n.arcs ∧ b.transition ≠ u) ∨
        (Arc.output b.transition p ∈ n.arcs ∧ Arc.output u p' ∈ n.arcs) := by
    rw [h.mem_arcs]
    simp [Arc.output, hp]
  have hfrom : Arc.output u' b.place ∈ n₁.arcs ↔
      (Arc.output u' b.place ∈ n.arcs ∧ b.place ≠ p) ∨
        (Arc.output u' p ∈ n.arcs ∧ Arc.output u b.place ∈ n.arcs) := by
    rw [h.mem_arcs]
    simp [Arc.output, hu]
  have hloop : Arc.output u p ∉ n.arcs := h.noLoop
  have hloop' : Arc.output u' p' ∉ n.arcs := hk.noLoop
  rw [k.mem_arcs, hin, hinto, hfrom]
  grind

/-- What `u'` serves after `p` was fused with `u`. -/
theorem Fused.mem_output_of_agglomerable (h : n.Fused p u n₁) (k : n₁.Agglomerable p' u') :
    Arc.output u' q ∈ n₁.arcs ↔ (Arc.output u' q ∈ n.arcs ∧ q ≠ p) ∨
      (Arc.output u' p ∈ n.arcs ∧ Arc.output u q ∈ n.arcs) :=
  h.mem_output (h.apart_of_agglomerable k).2

theorem Fused.forwarded_comm (h₁ : n.Fused p u n₁) (k₁ : n₁.Agglomerable p' u')
    (h₂ : n.Fused p' u' n₂) (k₂ : n₂.Agglomerable p u) (x : Tokens) :
    n₁.forwarded p' u' (n.forwarded p u x) = n₂.forwarded p u (n.forwarded p' u' x) := by
  funext q
  have hne := (h₁.apart_of_agglomerable k₁).1
  have hout₁ := h₁.mem_output_of_agglomerable k₁ (q := q)
  have hout₂ := h₂.mem_output_of_agglomerable k₂ (q := q)
  have hcircle := h₁.not_circle k₁
  have hapart₁ := h₁.apart u' q
  have hapart₂ := h₂.apart u q
  have hloop₁ := h₁.noLoop
  have hloop₂ := h₂.noLoop
  unfold forwarded
  grind

end Net

namespace AcceptingNet

variable {a a₁ a₂ b b₁ b₂ : AcceptingNet} {p p' q : PlaceId} {t u u' : TransitionId}

/-- To fuse `p` with `u` and `p'` with `u'` leaves the same in either order. -/
theorem FusedAt.comm (h₁ : FusedAt p u a a₁) (k₁ : FusedAt p' u' a₁ b₁) (h₂ : FusedAt p' u' a a₂)
    (k₂ : FusedAt p u a₂ b₂) : Renamed (Equiv.refl _) (Equiv.refl _) b₁ b₂ where
  hasPlace q := by
    rw [Bool.eq_iff_iff, Equiv.refl_apply, k₁.net.hasPlace_iff, h₁.net.hasPlace_iff,
      k₂.net.hasPlace_iff, h₂.net.hasPlace_iff]
    exact and_left_comm
  hasTransition t := by
    rw [Bool.eq_iff_iff, Equiv.refl_apply, k₁.net.hasTransition_iff, h₁.net.hasTransition_iff,
      k₂.net.hasTransition_iff, h₂.net.hasTransition_iff]
    exact and_left_comm
  label t := by
    rw [Equiv.refl_apply, label?_of_transition? k₁.net.transition?,
      label?_of_transition? h₁.net.transition?, label?_of_transition? k₂.net.transition?,
      label?_of_transition? h₂.net.transition?]
    split <;> split <;> rfl
  mem_arcs q t k := by
    rw [Equiv.refl_apply, Equiv.refl_apply,
      h₁.net.mem_arcs_of_fused k₁.net h₂.net.toAgglomerable,
      h₂.net.mem_arcs_of_fused k₂.net h₁.net.toAgglomerable]
    -- the four ways in the one order are those in the other one
    refine or_congr (and_congr_right fun _ => ?_) (and_congr_right fun _ => ?_)
    · constructor <;> exact fun ⟨hp, hp', hu, hu'⟩ => ⟨hp', hp, hu', hu⟩
    · rw [or_left_comm]
      exact or_congr_right (or_congr_right or_comm)
  initial q _ := by
    rw [Equiv.refl_apply, k₁.initial, h₁.initial, k₂.initial, h₂.initial,
      h₁.net.forwarded_comm k₁.net.toAgglomerable h₂.net k₂.net.toAgglomerable]
  final q _ := by rw [Equiv.refl_apply, k₁.final, h₁.final, k₂.final, h₂.final]

/-! ## Room for tokens -/

/-- A count can tell the tokens of `p` together with those of any place that `u` serves. -/
def Roomy (a : AcceptingNet) (p : PlaceId) (u : TransitionId) : Prop :=
  ∀ q, Arc.output u q ∈ a.net.arcs → 0 < a.initial.tokens p →
    a.initial.tokens q + a.initial.tokens p ≤ maxCount

theorem roomy_of_empty (h : a.initial.tokens p = 0) : a.Roomy p u := fun _ _ hp => by omega

theorem FusedAt.tokens (h : FusedAt p u a a₁) (hq : q ≠ p) :
    a₁.initial.tokens q =
      a.initial.tokens q + if Arc.output u q ∈ a.net.arcs then a.initial.tokens p else 0 := by
  rw [h.initial, Net.forwarded, if_neg hq]

/-- Room that is left after an agglomeration was there before, as far as `u` serves a place at all. -/
theorem Roomy.of_fusedAt (h : FusedAt p u a a₁) (hagg : a₁.net.Agglomerable p' u')
    (hroom : a₁.Roomy p' u') (haimed : 0 < a.initial.tokens p' → ∃ q, Arc.output u q ∈ a.net.arcs) :
    a.Roomy p' u' := by
  intro r hr hp'
  obtain ⟨hpp, -⟩ := h.net.apart_of_agglomerable hagg
  have htokens := h.tokens hpp
  by_cases hrp : r = p
  · -- what `u'` puts into `p` goes to the places that `u` serves
    obtain ⟨q, hq⟩ := haimed hp'
    have hqp : q ≠ p := fun he => h.net.noLoop (he ▸ hq)
    have hserve := (h.net.mem_output_of_agglomerable hagg).2 (.inr ⟨hrp ▸ hr, hq⟩)
    have hsum := hroom q hserve (by omega)
    rw [h.tokens hqp, if_pos hq] at hsum
    rw [hrp]
    omega
  · have hserve := (h.net.mem_output_of_agglomerable hagg).2 (.inl ⟨hr, hrp⟩)
    have hsum := hroom r hserve (by omega)
    rw [h.tokens hrp] at hsum
    omega

/-- If there is room for both agglomerations one after the other, there is in the other order, too. -/
theorem Roomy.across (h₁ : FusedAt p u a a₁) (k₁ : a₁.net.Agglomerable p' u')
    (hroom : a.Roomy p u) (hroom₁ : a₁.Roomy p' u') (h₂ : FusedAt p' u' a a₂)
    (k₂ : a₂.net.Agglomerable p u) : a₂.Roomy p u := by
  intro r hr hp
  obtain ⟨hpp, -⟩ := h₁.net.apart_of_agglomerable k₁
  have hrp : r ≠ p := fun he => k₂.noLoop (he ▸ hr)
  have hrp' : r ≠ p' := h₂.net.place_ne hr
  have htokens := h₁.tokens hpp
  have hsum₁ := hroom₁ r
  rw [h₁.tokens hrp, h₁.net.mem_output_of_agglomerable k₁] at hsum₁
  rw [h₂.tokens hpp.symm] at hp ⊢
  rw [h₂.tokens hrp']
  have hsum := hroom r
  have hcircle := h₁.net.not_circle k₁
  have hapart := h₁.net.apart u' r
  have hapart' := h₂.net.apart u r
  have hout := (h₂.net.mem_output_of_agglomerable k₂).1 hr
  grind

/-! ## Removals -/

theorem WithoutTransition.comm (h₁ : WithoutTransition t a a₁) (k₁ : WithoutTransition u a₁ b₁)
    (h₂ : WithoutTransition u a a₂) (k₂ : WithoutTransition t a₂ b₂) :
    Renamed (Equiv.refl _) (Equiv.refl _) b₁ b₂ where
  hasPlace q := by
    simp only [Equiv.refl_apply, Net.hasPlace, k₁.gone.place?, h₁.gone.place?, k₂.gone.place?,
      h₂.gone.place?]
  hasTransition v := by
    rw [Bool.eq_iff_iff, Equiv.refl_apply, k₁.gone.hasTransition_iff, h₁.gone.hasTransition_iff,
      k₂.gone.hasTransition_iff, h₂.gone.hasTransition_iff]
    exact and_right_comm
  label v := by
    rw [Equiv.refl_apply, label?_of_transition? k₁.gone.transition?,
      label?_of_transition? h₁.gone.transition?, label?_of_transition? k₂.gone.transition?,
      label?_of_transition? h₂.gone.transition?]
    split <;> split <;> rfl
  mem_arcs q v k := by
    rw [Equiv.refl_apply, Equiv.refl_apply, k₁.gone.mem_arcs, h₁.gone.mem_arcs, k₂.gone.mem_arcs,
      h₂.gone.mem_arcs]
    exact and_right_comm
  initial q _ := by rw [Equiv.refl_apply, k₁.initial, h₁.initial, k₂.initial, h₂.initial]
  final q _ := by rw [Equiv.refl_apply, k₁.final, h₁.final, k₂.final, h₂.final]

theorem WithoutPlace.comm (h₁ : WithoutPlace p a a₁) (k₁ : WithoutPlace q a₁ b₁)
    (h₂ : WithoutPlace q a a₂) (k₂ : WithoutPlace p a₂ b₂) :
    Renamed (Equiv.refl _) (Equiv.refl _) b₁ b₂ where
  hasPlace r := by
    rw [Bool.eq_iff_iff, Equiv.refl_apply, k₁.gone.hasPlace_iff, h₁.gone.hasPlace_iff,
      k₂.gone.hasPlace_iff, h₂.gone.hasPlace_iff]
    exact and_right_comm
  hasTransition v := by
    rw [Equiv.refl_apply, k₁.gone.hasTransition_eq, h₁.gone.hasTransition_eq,
      k₂.gone.hasTransition_eq, h₂.gone.hasTransition_eq]
  label v := by
    simp only [Equiv.refl_apply, Net.label?, k₁.gone.transition?, h₁.gone.transition?,
      k₂.gone.transition?, h₂.gone.transition?]
  mem_arcs r v k := by
    rw [Equiv.refl_apply, Equiv.refl_apply, k₁.gone.mem_arcs, h₁.gone.mem_arcs, k₂.gone.mem_arcs,
      h₂.gone.mem_arcs]
    exact and_right_comm
  initial r hr := by
    obtain ⟨hr, hrq⟩ := k₁.gone.hasPlace_iff.1 hr
    have hrp := (h₁.gone.hasPlace_iff.1 hr).2
    rw [Equiv.refl_apply, k₁.initial r hrq, h₁.initial r hrp, k₂.initial r hrp, h₂.initial r hrq]
  final r hr := by
    obtain ⟨hr, hrq⟩ := k₁.gone.hasPlace_iff.1 hr
    have hrp := (h₁.gone.hasPlace_iff.1 hr).2
    rw [Equiv.refl_apply, k₁.final r hrq, h₁.final r hrp, k₂.final r hrp, h₂.final r hrq]

theorem WithoutReset.comm (h₁ : WithoutReset p t a a₁) (k₁ : WithoutReset q u a₁ b₁)
    (h₂ : WithoutReset q u a a₂) (k₂ : WithoutReset p t a₂ b₂) :
    Renamed (Equiv.refl _) (Equiv.refl _) b₁ b₂ where
  hasPlace r := by
    rw [Equiv.refl_apply, k₁.gone.nodes.hasPlace, h₁.gone.nodes.hasPlace, k₂.gone.nodes.hasPlace,
      h₂.gone.nodes.hasPlace]
  hasTransition v := by
    rw [Equiv.refl_apply, k₁.gone.nodes.hasTransition, h₁.gone.nodes.hasTransition,
      k₂.gone.nodes.hasTransition, h₂.gone.nodes.hasTransition]
  label v := by
    simp only [Equiv.refl_apply, Net.label?, k₁.gone.nodes.transition?, h₁.gone.nodes.transition?,
      k₂.gone.nodes.transition?, h₂.gone.nodes.transition?]
  mem_arcs r v k := by
    rw [Equiv.refl_apply, Equiv.refl_apply, k₁.gone.mem_arcs, h₁.gone.mem_arcs, k₂.gone.mem_arcs,
      h₂.gone.mem_arcs]
    exact and_right_comm
  initial q _ := by rw [Equiv.refl_apply, k₁.initial, h₁.initial, k₂.initial, h₂.initial]
  final q _ := by rw [Equiv.refl_apply, k₁.final, h₁.final, k₂.final, h₂.final]

/-! ## Twins -/

/-- Two silent transitions with the same arcs can be swapped. -/
theorem renamed_swap_transitions (ht : a.net.isSilent t) (hu : a.net.isSilent u)
    (hsame : a.net.SameArcs t a.net u) : Renamed (Equiv.refl _) (Equiv.swap t u) a a := by
  obtain ⟨htlive, htlabel⟩ := Net.isSilent_iff.1 ht
  obtain ⟨hulive, hulabel⟩ := Net.isSilent_iff.1 hu
  exact ⟨fun _ => rfl, Equiv.apply_swap_eq_self (htlive.trans hulive.symm),
    Equiv.apply_swap_eq_self (htlabel.trans hulabel.symm),
    fun q v k => iff_of_eq (Equiv.apply_swap_eq_self (v := fun v => Arc.mk q v k ∈ a.net.arcs)
      (propext (hsame q k)) v), fun _ _ => rfl, fun _ _ => rfl⟩

/-- Two places with the same arcs and the same tokens can be swapped. -/
theorem renamed_swap_places (hp : a.net.hasPlace p) (hq : a.net.hasPlace q)
    (hsame : ∀ v k, Arc.mk p v k ∈ a.net.arcs ↔ Arc.mk q v k ∈ a.net.arcs)
    (hinitial : a.initial.tokens p = a.initial.tokens q)
    (hfinal : a.final.tokens p = a.final.tokens q) :
    Renamed (Equiv.swap p q) (Equiv.refl _) a a :=
  ⟨Equiv.apply_swap_eq_self (hp.trans hq.symm), fun _ => rfl, fun _ => rfl,
    fun r v k => iff_of_eq (Equiv.apply_swap_eq_self (v := fun r => Arc.mk r v k ∈ a.net.arcs)
      (propext (hsame v k)) r), fun r _ => Equiv.apply_swap_eq_self hinitial r,
    fun r _ => Equiv.apply_swap_eq_self hfinal r⟩

end AcceptingNet

end ProcessNet
