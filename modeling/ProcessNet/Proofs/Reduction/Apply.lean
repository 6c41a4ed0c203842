/-
What it does to apply a rule at a match of a consistent net: the edits succeed and make the step that the
rule is meant to make. Only the fusion of two places can fail, when the second one cannot hold the tokens
of both; what it leaves then is still a consistent net.
-/
import ProcessNet.Proofs.Reduction.Rewrite

namespace ProcessNet

namespace AcceptingNet

/-- `FSP` matches two places, and no count can tell their tokens together. -/
def Overfull (a : AcceptingNet) : Prop :=
  ∃ t m, a.seriesPlacesAt? t = some m ∧
    maxCount < a.initial.tokens m.second + a.initial.tokens m.first

/-- `a'` is what a fusion of overfull places leaves of `a`: the second place is there for both, and
the tokens of the first are on neither. -/
def Spilled (a a' : AcceptingNet) : Prop :=
  ∃ t m, a.seriesPlacesAt? t = some m ∧ a.net.Fused m.first t a'.net ∧
    a'.initial = (a.initial.take m.first).2 ∧ a'.final = a.final

end AcceptingNet

namespace Reduction

open AcceptingNet

variable {s : Reduction}

/-! ## Agglomerations -/

theorem exists_fuseSeriesTransitions (hs : s.net.Consistent) {p : PlaceId} {m : SeriesTransitions}
    (hm : s.accepting.seriesTransitionsAt? p = some m) :
    ∃ l n, fuseSeriesTransitions p m s = .ok l (s.withNet n) ∧ s.net.Fused p m.second n := by
  obtain ⟨hlive, _, hagg, hproducer⟩ := seriesTransitionsAt?_eq_some hs.mirrored hm
  have houtput : Arc.output m.first p ∈ s.net.arcs := (hproducer _).2 rfl
  have hne : m.first ≠ m.second := fun he => hagg.noLoop (he ▸ houtput)
  obtain ⟨n₁, h₁, g₁⟩ := exists_removePlace hs hlive
  have hlive₁ : n₁.hasTransition m.second :=
    g₁.hasTransition_eq m.second ▸ (Net.isSilent_iff.1 hagg.silent).1
  obtain ⟨n₂, h₂, g₂⟩ := exists_removeTransition (s := s.withNet n₁) g₁.consistent hlive₁
  have hd := g₁.detached g₂
  obtain ⟨n₃, h₃, e₃⟩ := exists_forM_extended (s := s.withNet n₂) (f := addOutput m.first)
    (E := fun q b => b = .output m.first q) (l := s.net.postset m.second) g₂.consistent (.refl _)
    fun q hq s' hs' hnodes => by
      have hq := (Net.mem_postset hs.mirrored).1 hq
      have hqp : q ≠ p := fun he => hagg.noLoop (he ▸ hq)
      exact exists_addOutput hs'
        (hnodes.transitionReady (hd.transitionReady _ hne (hs.transitionReady houtput)))
        (hnodes.placeReady (hd.placeReady _ hqp (hs.placeReady hq)))
  refine ⟨(n₃.transitionArcs m.first).map (·.1), n₃, ?_, hd.fused hagg e₃ fun b => ⟨?_, ?_⟩⟩
  · unfold fuseSeriesTransitions
    rw [withNet_withNet] at h₂ h₃
    rw [get_bind, bind_of_ok h₁, bind_of_ok h₂, bind_of_ok h₃, get_bind, pure_apply]
    rfl
  · rintro ⟨q, hq, rfl⟩
    exact ⟨rfl, houtput, (Net.mem_postset hs.mirrored).1 hq⟩
  · rintro ⟨hk, ht, hq⟩
    refine ⟨b.place, (Net.mem_postset hs.mirrored).2 hq, ?_⟩
    rw [← (hproducer _).1 ht, Arc.output, ← hk]

/-- A silent transition and the place before it are detached in this order by `fuseSeriesTransitions` and
by `skipSilentStep`. -/
theorem exists_detach (hs : s.net.Consistent) {p : PlaceId} {t : TransitionId}
    (hagg : s.net.Agglomerable p t) :
    ∃ n, s.net.Detached p t n ∧ ∀ {β : Type} (k : ReductionM β),
      (removeTransition t >>= fun _ => removePlace p >>= fun _ => k) s = k (s.withNet n) := by
  obtain ⟨n₁, h₁, g₁⟩ := exists_removeTransition hs (Net.isSilent_iff.1 hagg.silent).1
  have hlive₁ : n₁.hasPlace p := by
    rw [Net.hasPlace, g₁.place?]
    exact hs.livePlace _ hagg.input
  obtain ⟨n₂, h₂, g₂⟩ := exists_removePlace (s := s.withNet n₁) g₁.consistent hlive₁
  exact ⟨n₂, g₁.detached g₂, fun k => by rw [bind_of_ok h₁, bind_of_ok h₂]; rfl⟩

theorem ends_fuseSeriesPlaces (hs : s.net.Consistent) {t : TransitionId} {m : SeriesPlaces}
    (hm : s.accepting.seriesPlacesAt? t = some m) :
    Ends (fun _ s' => ∃ n initial, s.net.Fused m.first t n ∧
        s.accepting.initial.moveAll m.first m.second = .ok initial ∧
        s' = { s with accepting := ⟨n, initial, s.accepting.final⟩ })
      (fun e s' => e = .net (.fault .countOverflow) ∧ s'.net.Consistent ∧ s.accepting.Overfull ∧
        s.accepting.Spilled s'.accepting ∧
        s.accepting.initial.moveAll m.first m.second = .error .countOverflow)
      (fuseSeriesPlaces t m s) := by
  obtain ⟨_, hagg, htarget⟩ := seriesPlacesAt?_eq_some hs.mirrored hm
  have houtput : Arc.output t m.second ∈ s.net.arcs := (htarget _).2 rfl
  have hne : m.second ≠ m.first := fun he => hagg.noLoop (he ▸ houtput)
  obtain ⟨n₂, hd, hdetach⟩ := exists_detach hs hagg
  obtain ⟨n₃, h₃, e₃⟩ := exists_forM_extended (s := s.withNet n₂) (f := (addOutput · m.second))
    (E := fun u b => b = .output u m.second) (l := s.net.producers m.first) hd.consistent
    (.refl _) fun u hu s' hs' hnodes => by
      have hu := (Net.mem_producers hs.mirrored).1 hu
      have hut : u ≠ t := fun he => hagg.noLoop (he ▸ hu)
      exact exists_addOutput hs'
        (hnodes.transitionReady (hd.transitionReady _ hut (hs.transitionReady hu)))
        (hnodes.placeReady (hd.placeReady _ hne (hs.placeReady houtput)))
  have hfused : s.net.Fused m.first t n₃ := by
    refine hd.fused hagg e₃ fun b => ⟨?_, ?_⟩
    · rintro ⟨u, hu, rfl⟩
      exact ⟨rfl, (Net.mem_producers hs.mirrored).1 hu, houtput⟩
    · rintro ⟨hk, hu, hq⟩
      refine ⟨b.transition, (Net.mem_producers hs.mirrored).2 hu, ?_⟩
      rw [← (htarget _).1 hq, Arc.output, ← hk]
  unfold fuseSeriesPlaces
  rw [withNet_withNet] at h₃
  rw [get_bind, hdetach, bind_of_ok h₃, bind_of_ok (takeInitial_eq m.first)]
  split
  · rename_i hk
    have hmove : s.accepting.initial.moveAll m.first m.second =
        (s.accepting.initial.take m.first).2.add m.second (s.accepting.initial.tokens m.first) :=
      if_pos hk
    refine Ends.bind (ends_addInitial (fun initial hadd => ?_) fun f hadd => ?_)
    · exact ⟨n₃, initial, hfused, hmove.trans hadd, rfl⟩
    · obtain ⟨rfl, hmax⟩ := Marking.moveAll_eq_error hne (hmove.trans hadd)
      exact ⟨rfl, e₃.consistent, ⟨t, m, hm, hmax⟩, ⟨t, m, hm, hfused, rfl, rfl⟩, hmove.trans hadd⟩
  · rename_i hk
    exact ⟨n₃, _, hfused, if_neg hk, rfl⟩

theorem exists_skipSilentStep (hs : s.net.Consistent) {t : TransitionId} {m : SilentStep}
    (hm : s.accepting.silentStepAt? t = some m) :
    ∃ l n, skipSilentStep t m s = .ok l (s.withNet n) ∧ s.net.Fused m.place t n := by
  obtain ⟨_, hagg, hproducers, htargets⟩ := silentStepAt?_eq_some hs.mirrored hm
  obtain ⟨n₂, hd, hdetach⟩ := exists_detach hs hagg
  have hturn : ∀ u ∈ m.producers, ∀ s' : Reduction, s'.net.Consistent → n₂.SameNodes s'.net →
      ∃ n', m.targets.forM (addOutput u) s' = .ok () (s'.withNet n') ∧
        s'.net.Extended (fun b => ∃ q ∈ m.targets, b = .output u q) n' := by
    intro u hu s' hs' hnodes
    rw [hproducers] at hu
    have hu := (Net.mem_producers hs.mirrored).1 hu
    have hut : u ≠ t := fun he => hagg.noLoop (he ▸ hu)
    refine exists_forM_extended hs' hnodes fun q hq s'' hs'' hnodes' => ?_
    rw [htargets] at hq
    have hq := (Net.mem_postset hs.mirrored).1 hq
    have hqp : q ≠ m.place := fun he => hagg.noLoop (he ▸ hq)
    exact exists_addOutput hs''
      (hnodes'.transitionReady (hd.transitionReady _ hut (hs.transitionReady hu)))
      (hnodes'.placeReady (hd.placeReady _ hqp (hs.placeReady hq)))
  obtain ⟨n₃, h₃, e₃⟩ := exists_forM_extended (s := s.withNet n₂) hd.consistent (.refl _) hturn
  refine ⟨m.targets.flatMap n₃.consumers, n₃, ?_, hd.fused hagg e₃ fun b => ?_⟩
  · unfold skipSilentStep
    rw [withNet_withNet] at h₃
    rw [hdetach, bind_of_ok h₃, get_bind, pure_apply]
    rfl
  rw [hproducers, htargets]
  constructor
  · rintro ⟨u, hu, q, hq, rfl⟩
    exact ⟨rfl, (Net.mem_producers hs.mirrored).1 hu, (Net.mem_postset hs.mirrored).1 hq⟩
  · rintro ⟨hk, hu, hq⟩
    refine ⟨b.transition, (Net.mem_producers hs.mirrored).2 hu, b.place,
      (Net.mem_postset hs.mirrored).2 hq, ?_⟩
    rw [Arc.output, ← hk]

/-! ## Self-loops -/

theorem exists_removeSelfLoopTransition (hs : s.net.Consistent) {t : TransitionId} {p : PlaceId}
    (hm : s.accepting.selfLoopTransitionAt? t = some p) :
    ∃ l n, removeSelfLoopTransition t p s = .ok l (s.withNet n) ∧ s.net.TransitionGone t n := by
  obtain ⟨hsilent, _, _⟩ := selfLoopTransitionAt?_eq_some hs.mirrored hm
  obtain ⟨n, hok, hgone⟩ := exists_removeTransition hs (Net.isSilent_iff.1 hsilent).1
  refine ⟨n.producers p, n, ?_, hgone⟩
  unfold removeSelfLoopTransition
  rw [bind_of_ok hok, get_bind, pure_apply]
  rfl

theorem exists_removeSelfLoopPlace (hs : s.net.Consistent) {p : PlaceId}
    (hm : s.accepting.isSelfLoopPlace p) :
    ∃ n, removeSelfLoopPlace p s = .ok []
        { s with accepting := ⟨n, (s.accepting.initial.take p).2, s.accepting.final⟩ } ∧
      s.net.PlaceGone p n := by
  obtain ⟨hlive, _⟩ := refilled_of_isSelfLoopPlace hs.mirrored hm
  obtain ⟨n, hok, hgone⟩ := exists_removePlace hs hlive
  refine ⟨n, ?_, hgone⟩
  unfold removeSelfLoopPlace
  rw [bind_of_ok hok, bind_of_ok (takeInitial_eq p), pure_apply]
  rfl

/-! ## Reset arcs -/

theorem exists_removeReset (hs : s.net.Consistent) {p : PlaceId} {t : TransitionId}
    (hreset : Arc.reset p t ∈ s.net.arcs) :
    ∃ n, removeReset p t s = .ok () (s.withNet n) ∧ s.net.ResetGone p t n := by
  obtain ⟨n, found, hok, hn, hnodes, hmem, hcount⟩ := hs.exists_removeArc hreset
  exact ⟨n, onNet_of_ok hok, hn, hnodes, hmem, hcount⟩

/-! ## Twins -/

/-- A relation between one node that is kept and others that `drop` can remove one after the other: what
is left of a group stays one, and so does any other group. -/
structure Merging {ι : Type} (drop : ι → ReductionM Unit)
    (Twins : AcceptingNet → ι → List ι → Prop)
    (Drop : ι → ι → AcceptingNet → AcceptingNet → Prop) : Prop where
  notMem : ∀ {a k d l}, Twins a k (d :: l) → d ∉ k :: l
  tail : ∀ {a k d l}, Twins a k (d :: l) → Twins a k l
  turn : ∀ {s k d l}, s.net.Consistent → Twins s.accepting k (d :: l) →
    ∃ a', drop d s = .ok () { s with accepting := a' } ∧ Drop k d s.accepting a' ∧
      a'.net.Consistent ∧
      ∀ k' l', d ∉ k' :: l' → Twins s.accepting k' l' → Twins a' k' l'

/-- `drop` removes a whole group but for the kept node. -/
theorem Merging.exists_forM {ι : Type} {drop : ι → ReductionM Unit}
    {Twins : AcceptingNet → ι → List ι → Prop} {Drop : ι → ι → AcceptingNet → AcceptingNet → Prop}
    (h : Merging drop Twins Drop) {k : ι} {l : List ι} (hs : s.net.Consistent)
    (hl : Twins s.accepting k l) :
    ∃ a', l.forM drop s = .ok () { s with accepting := a' } ∧ Dropped (Drop k) l s.accepting a' ∧
      ∀ k' l', (∀ i ∈ l, i ∉ k' :: l') → Twins s.accepting k' l' → Twins a' k' l' := by
  induction l generalizing s with
  | nil => exact ⟨s.accepting, rfl, .nil _, fun _ _ _ ht => ht⟩
  | cons d l ih =>
    obtain ⟨a₁, hok₁, hdrop₁, hcons₁, hrest₁⟩ := h.turn hs hl
    obtain ⟨a₂, hok₂, hdrop₂, hrest₂⟩ := ih (s := { s with accepting := a₁ }) hcons₁
      (hrest₁ k l (h.notMem hl) (h.tail hl))
    refine ⟨a₂, ?_, .cons hdrop₁ hdrop₂, fun k' l' hd ht => ?_⟩
    · rw [List.forM, bind_of_ok hok₁]
      exact hok₂
    · exact hrest₂ k' l' (fun i hi => hd i (List.mem_cons_of_mem _ hi))
        (hrest₁ k' l' (hd d List.mem_cons_self) ht)

/-- Silent transitions with the same arcs as `k`. -/
structure TwinTransitions (a : AcceptingNet) (k : TransitionId) (l : List TransitionId) : Prop where
  nodup : (k :: l).Nodup
  silent : ∀ t ∈ k :: l, a.net.isSilent t
  same : ∀ t ∈ l, a.net.SameArcs t a.net k

theorem merging_transitions : Merging removeTransition TwinTransitions TwinTransitionGone where
  notMem h := by
    have := h.nodup
    simp only [List.nodup_cons, List.mem_cons, not_or] at this ⊢
    exact ⟨Ne.symm this.1.1, this.2.1⟩
  tail {a k d l} h := by
    have hsub : ∀ t ∈ k :: l, t ∈ k :: d :: l := by
      simp only [List.mem_cons]
      rintro t (ht | ht)
      · exact .inl ht
      · exact .inr (.inr ht)
    exact ⟨h.nodup.sublist ((List.sublist_cons_self d l).cons_cons k),
      fun t ht => h.silent t (hsub t ht), fun t ht => h.same t (List.mem_cons_of_mem _ ht)⟩
  turn {s k d l} hs h := by
    have hd : d ∈ k :: d :: l := List.mem_cons_of_mem _ List.mem_cons_self
    have hne : k ≠ d := fun he => (List.nodup_cons.1 h.nodup).1 (he ▸ List.mem_cons_self)
    obtain ⟨n, hok, hgone⟩ := exists_removeTransition hs (Net.isSilent_iff.1 (h.silent d hd)).1
    refine ⟨{ s.accepting with net := n }, hok, ⟨hne, h.silent k List.mem_cons_self,
      h.silent d hd, h.same d List.mem_cons_self, hgone, rfl, rfl⟩, hgone.consistent,
      fun k' l' hd' ht => ?_⟩
    have hother : ∀ t ∈ k' :: l', t ≠ d := fun t ht he => hd' (he ▸ ht)
    refine ⟨ht.nodup, fun t htm => ?_, fun t htm p κ => ?_⟩
    · have hsilent := ht.silent t htm
      change n.isSilent t
      rwa [Net.isSilent, hgone.transition?, if_neg (hother t htm)]
    · have hk := hgone.sameArcs (hother k' List.mem_cons_self) p κ
      have ht' := hgone.sameArcs (hother t (List.mem_cons_of_mem _ htm)) p κ
      exact ht'.symm.trans ((ht.same t htm p κ).trans hk)

/-- Live places with the same arcs and the same tokens as `k`. -/
structure TwinPlaces (a : AcceptingNet) (k : PlaceId) (l : List PlaceId) : Prop where
  nodup : (k :: l).Nodup
  live : ∀ p ∈ l, a.net.hasPlace p
  same : ∀ p ∈ l, ∀ t κ, Arc.mk p t κ ∈ a.net.arcs ↔ Arc.mk k t κ ∈ a.net.arcs
  initial : ∀ p ∈ l, a.initial.tokens p = a.initial.tokens k
  final : ∀ p ∈ l, a.final.tokens p = a.final.tokens k

/-- Removes a place from the net and from both markings, as `FPP` does with each place of a group. -/
def dropPlace (p : PlaceId) : ReductionM Unit := do
  removePlace p
  let _ ← takeInitial p
  dropFinal p

theorem merging_places : Merging dropPlace TwinPlaces TwinPlaceGone where
  notMem h := by
    have := h.nodup
    simp only [List.nodup_cons, List.mem_cons, not_or] at this ⊢
    exact ⟨Ne.symm this.1.1, this.2.1⟩
  tail {a k d l} h :=
    ⟨h.nodup.sublist ((List.sublist_cons_self d l).cons_cons k),
      fun p hp => h.live p (List.mem_cons_of_mem _ hp),
      fun p hp => h.same p (List.mem_cons_of_mem _ hp),
      fun p hp => h.initial p (List.mem_cons_of_mem _ hp),
      fun p hp => h.final p (List.mem_cons_of_mem _ hp)⟩
  turn {s k d l} hs h := by
    have hne : k ≠ d := fun he => (List.nodup_cons.1 h.nodup).1 (he ▸ List.mem_cons_self)
    obtain ⟨n, hok, hgone⟩ := exists_removePlace hs (h.live d List.mem_cons_self)
    refine ⟨⟨n, (s.accepting.initial.take d).2, (s.accepting.final.take d).2⟩, ?_,
      ⟨hne, h.same d List.mem_cons_self, h.initial d List.mem_cons_self,
        h.final d List.mem_cons_self, hgone, rfl, rfl⟩, hgone.consistent, fun k' l' hd' ht => ?_⟩
    · unfold dropPlace
      rw [bind_of_ok hok, bind_of_ok (takeInitial_eq d)]
      rfl
    · have hother : ∀ p ∈ k' :: l', p ≠ d := fun p hp he => hd' (he ▸ hp)
      have hk := hother k' List.mem_cons_self
      refine ⟨ht.nodup, fun p hp => ?_, fun p hp t κ => ?_, fun p hp => ?_, fun p hp => ?_⟩
      · have hpd := hother p (List.mem_cons_of_mem _ hp)
        exact hgone.hasPlace_iff.2 ⟨ht.live p hp, hpd⟩
      · have hpd := hother p (List.mem_cons_of_mem _ hp)
        have hleft : Arc.mk p t κ ∈ n.arcs ↔ Arc.mk p t κ ∈ s.net.arcs :=
          (hgone.mem_arcs _).trans (and_iff_left hpd)
        have hright : Arc.mk k' t κ ∈ n.arcs ↔ Arc.mk k' t κ ∈ s.net.arcs :=
          (hgone.mem_arcs _).trans (and_iff_left hk)
        exact hleft.trans ((ht.same p hp t κ).trans hright.symm)
      · have hpd := hother p (List.mem_cons_of_mem _ hp)
        change (s.accepting.initial.take d).2.tokens p = (s.accepting.initial.take d).2.tokens k'
        rw [Marking.tokens_take_of_ne hpd, Marking.tokens_take_of_ne hk, ht.initial p hp]
      · have hpd := hother p (List.mem_cons_of_mem _ hp)
        change (s.accepting.final.take d).2.tokens p = (s.accepting.final.take d).2.tokens k'
        rw [Marking.tokens_take_of_ne hpd, Marking.tokens_take_of_ne hk, ht.final p hp]

end Reduction

end ProcessNet
