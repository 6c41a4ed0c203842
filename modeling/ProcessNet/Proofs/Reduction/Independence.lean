/-
Rules whose order never matters. A silent self-loop, a self-loop place, a twin or a needless reset arc can be
left out before or after another one; only of two twins, and of two self-loops at one place, the second may be
needed once the first is gone, and then it is the same, up to ids, which of them is left out.
-/
import ProcessNet.Proofs.Reduction.Contention

namespace ProcessNet

open AcceptingNet
open Relation (ReflTransGen)

namespace AcceptingNet

variable {a a' a₁ a₂ b : AcceptingNet} {p q k d : PlaceId} {t u : TransitionId}

/-! ## Steps that never get stuck -/

/-- No arc is new, and no place holds more tokens. -/
structure Pruned (a a' : AcceptingNet) : Prop where
  arcs : ∀ b ∈ a'.net.arcs, b ∈ a.net.arcs
  tokens : ∀ q, a'.initial.tokens q ≤ a.initial.tokens q

theorem WithoutTransition.pruned (h : WithoutTransition t a a') : Pruned a a' :=
  ⟨fun b hb => ((h.gone.mem_arcs b).1 hb).1, fun _ => h.initial ▸ Nat.le_refl _⟩

theorem WithoutPlace.pruned (h : WithoutPlace p a a') (hinitial : a'.initial = (a.initial.take p).2) :
    Pruned a a' :=
  ⟨fun b hb => ((h.gone.mem_arcs b).1 hb).1, fun q => hinitial ▸ Marking.tokens_take_le _ p q⟩

theorem WithoutReset.pruned (h : WithoutReset p t a a') : Pruned a a' :=
  ⟨fun b hb => ((h.gone.mem_arcs b).1 hb).1, fun _ => h.initial ▸ Nat.le_refl _⟩

/-- Two steps lead to similar nets or can be joined by one more step each. -/
def JoinsPeaks (Step : AcceptingNet → AcceptingNet → Prop) : Prop :=
  ∀ ⦃a a₁ a₂⦄, a.WellFormed → Step a a₁ → Step a a₂ →
    Similar a₁ a₂ ∨ ∃ b₁ b₂, Step a₁ b₁ ∧ Step a₂ b₂ ∧ Similar b₁ b₂

/-- Steps that keep counts storable converge if their peaks can be joined. -/
theorem Blind.convergent {Step : AcceptingNet → AcceptingNet → Prop}
    {Site : AcceptingNet → PlaceId → TransitionId → Prop} (h : Blind Step fun _ => False)
    (hnone : ∀ a p u, ¬ Site a p u)
    (hstorable : ∀ {a a'}, a.WellFormed → a.initial.Storable → Step a a' → a'.initial.Storable)
    (hpeak : JoinsPeaks Step) :
    Convergent Step (fun _ => False) fun a =>
      a.initial.Storable ∧ ¬ Reduction.Contested Step Site a where
  toBlind := h
  sound ha hsound hstep := ⟨hstorable ha hsound.1 hstep,
    fun ⟨_, _, p, u, _, _, hs, _⟩ => hnone _ p u hs⟩
  stays _ _ hstuck := hstuck.elim
  joins {a a₁ a₂} ha _ h₁ h₂ := by
    rcases hpeak ha h₁ h₂ with hsim | ⟨b₁, b₂, hb₁, hb₂, hsim⟩
    · exact .inr ⟨a₁, a₂, .refl, .refl, hsim⟩
    · exact .inr ⟨b₁, b₂, .single hb₁, .single hb₂, hsim⟩

/-- One of two silent transitions with the same arcs is left out, as by `FPT`. -/
def TwinTransitionDropped (a a' : AcceptingNet) : Prop := ∃ t u, TwinTransitionGone t u a a'

/-- One of two live places with the same arcs and the same tokens is left out, as by `FPP`. -/
def TwinPlaceDropped (a a' : AcceptingNet) : Prop :=
  ∃ k d, a.net.hasPlace k ∧ a.net.hasPlace d ∧ TwinPlaceGone k d a a'

/-- A reset arc is left out where a transition needs the place empty, as by `R`. -/
def NeedlessResetDropped (a a' : AcceptingNet) : Prop :=
  ∃ p t, Arc.reset p t ∈ a.net.arcs ∧ Arc.inhibitor p t ∈ a.net.arcs ∧
    a.net.ResetGone p t a'.net ∧ a'.initial = a.initial ∧ a'.final = a.final

/-! ## Twin transitions -/

theorem TwinTransitionGone.without (h : TwinTransitionGone t u a a') : WithoutTransition u a a' :=
  ⟨h.gone, congrArg _ h.initial, congrArg _ h.final⟩

theorem exists_twinTransitionGone (ha : a.net.Consistent) (hne : t ≠ u) (ht : a.net.isSilent t)
    (hu : a.net.isSilent u) (hsame : a.net.SameArcs u a.net t) : ∃ a', TwinTransitionGone t u a a' := by
  obtain ⟨n, _, _, hgone⟩ := ha.exists_removeTransition (Net.isSilent_iff.1 hu).1
  exact ⟨⟨n, a.initial, a.final⟩, hne, ht, hu, hsame, hgone, rfl, rfl⟩

theorem isSilent_of_transitionGone (h : a.net.TransitionGone t a'.net) (hut : u ≠ t)
    (hu : a.net.isSilent u) : a'.net.isSilent u := by
  rwa [Net.isSilent, h.transition?, if_neg hut]

theorem blind_twinTransitions : Blind TwinTransitionDropped fun _ => False where
  wellFormed ha := fun ⟨_, _, h⟩ => (h.keeps ha).wellFormed
  lighter _ := fun ⟨_, _, h⟩ => h.lighter.weight
  similar hab := fun ⟨t, u, h⟩ => by
    obtain ⟨f, g, hfg⟩ := hab.renamed
    obtain ⟨b', h'⟩ := exists_twinTransitionGone hab.right.consistent (g.injective.ne h.ne)
      ((hfg.isSilent t).2 h.kept) ((hfg.isSilent u).2 h.silent) (hfg.sameArcs h.same)
    exact ⟨b', ⟨_, _, h'⟩, (h.keeps hab.left).wellFormed, (h'.keeps hab.right).wellFormed, f, g,
      hfg.withoutTransition h.without h'.without⟩
  stuck _ := id

/-- `FPT` leaves the twin of a transition when it removes one with other arcs. -/
theorem TwinTransitionGone.survives {t' u' : TransitionId} (h : TwinTransitionGone t u a a₁)
    (h' : TwinTransitionGone t' u' a a₂) (hother : ¬ a.net.SameArcs u a.net u') :
    ∃ b, TwinTransitionGone t' u' a₁ b := by
  have hu' : u' ≠ u := fun he => hother (he ▸ fun _ _ => Iff.rfl)
  have ht' : t' ≠ u := fun he => hother (he ▸ fun p k => (h'.same p k).symm)
  refine exists_twinTransitionGone h.gone.consistent h'.ne
    (isSilent_of_transitionGone h.gone ht' h'.kept)
    (isSilent_of_transitionGone h.gone hu' h'.silent) fun p k => ?_
  exact ((h.gone.sameArcs hu' p k).symm.trans (h'.same p k)).trans (h.gone.sameArcs ht' p k)

theorem peak_twinTransitions : JoinsPeaks TwinTransitionDropped := by
  intro a a₁ a₂ ha h₁ h₂
  have hwf {c c'} := @blind_twinTransitions.wellFormed c c'
  have hwf₁ := hwf ha h₁
  have hwf₂ := hwf ha h₂
  obtain ⟨t, u, h₁⟩ := h₁
  obtain ⟨t', u', h₂⟩ := h₂
  by_cases hsame : a.net.SameArcs u a.net u'
  · have hswap := renamed_swap_transitions h₁.silent h₂.silent hsame
    exact .inl ⟨hwf₁, hwf₂, _, _, hswap.withoutTransition h₁.without
      ((Equiv.swap_apply_left u u').symm ▸ h₂.without)⟩
  · obtain ⟨b₁, k₁⟩ := h₁.survives h₂ hsame
    obtain ⟨b₂, k₂⟩ := h₂.survives h₁ fun hs => hsame fun p k => (hs p k).symm
    exact .inr ⟨b₁, b₂, ⟨_, _, k₁⟩, ⟨_, _, k₂⟩, hwf hwf₁ ⟨_, _, k₁⟩, hwf hwf₂ ⟨_, _, k₂⟩, _, _,
      h₁.without.comm k₁.without h₂.without k₂.without⟩

/-! ## Twin places -/

theorem TwinPlaceGone.without (h : TwinPlaceGone k d a a') : WithoutPlace d a a' :=
  ⟨h.gone, fun _ hq => h.initial ▸ Marking.tokens_take_of_ne hq,
    fun _ hq => h.final ▸ Marking.tokens_take_of_ne hq⟩

theorem exists_twinPlaceGone (ha : a.net.Consistent) (hne : k ≠ d) (hd : a.net.hasPlace d)
    (hsame : ∀ t κ, Arc.mk d t κ ∈ a.net.arcs ↔ Arc.mk k t κ ∈ a.net.arcs)
    (hinitial : a.initial.tokens d = a.initial.tokens k)
    (hfinal : a.final.tokens d = a.final.tokens k) : ∃ a', TwinPlaceGone k d a a' := by
  obtain ⟨n, _, _, hgone⟩ := ha.exists_removePlace hd
  exact ⟨⟨n, (a.initial.take d).2, (a.final.take d).2⟩, hne, hsame, hinitial, hfinal, hgone, rfl, rfl⟩

theorem blind_twinPlaces : Blind TwinPlaceDropped fun _ => False where
  wellFormed ha := fun ⟨_, _, _, _, h⟩ => (h.keeps ha).wellFormed
  lighter _ := fun ⟨_, _, _, _, h⟩ => h.lighter.weight
  similar hab := fun ⟨k, d, hk, hd, h⟩ => by
    obtain ⟨f, g, hfg⟩ := hab.renamed
    have hk' := (hfg.hasPlace k).trans hk
    have hd' := (hfg.hasPlace d).trans hd
    obtain ⟨b', h'⟩ := exists_twinPlaceGone hab.right.consistent (f.injective.ne h.ne) hd'
      (fun v κ => by
        obtain ⟨v, rfl⟩ := g.surjective v
        rw [hfg.mem_arcs, hfg.mem_arcs, h.same])
      (by rw [hfg.initial d hd, hfg.initial k hk, h.sameInitial])
      (by rw [hfg.final d hd, hfg.final k hk, h.sameFinal])
    exact ⟨b', ⟨_, _, hk', hd', h'⟩, (h.keeps hab.left).wellFormed, (h'.keeps hab.right).wellFormed,
      f, g, hfg.withoutPlace h.without h'.without⟩
  stuck _ := id

/-- `FPP` leaves the twin of a place when it removes one with other arcs or other tokens. -/
theorem TwinPlaceGone.survives {k' d' : PlaceId} (h : TwinPlaceGone k d a a₁) (hk' : k' ≠ d)
    (hd' : d' ≠ d) (hklive : a.net.hasPlace k') (hdlive : a.net.hasPlace d')
    (h' : TwinPlaceGone k' d' a a₂) :
    a₁.net.hasPlace k' ∧ a₁.net.hasPlace d' ∧ ∃ b, TwinPlaceGone k' d' a₁ b := by
  have hdlive₁ := h.gone.hasPlace_iff.2 ⟨hdlive, hd'⟩
  refine ⟨h.gone.hasPlace_iff.2 ⟨hklive, hk'⟩, hdlive₁,
    exists_twinPlaceGone h.gone.consistent h'.ne hdlive₁ (fun v κ => ?_) ?_ ?_⟩
  · rw [h.gone.mem_arcs, h.gone.mem_arcs, h'.same, and_iff_left hd', and_iff_left hk']
  · rw [h.without.initial _ hd', h.without.initial _ hk', h'.sameInitial]
  · rw [h.without.final _ hd', h.without.final _ hk', h'.sameFinal]

theorem peak_twinPlaces : JoinsPeaks TwinPlaceDropped := by
  intro a a₁ a₂ ha h₁ h₂
  have hwf {c c'} := @blind_twinPlaces.wellFormed c c'
  have hwf₁ := hwf ha h₁
  have hwf₂ := hwf ha h₂
  obtain ⟨k, d, hk, hd, h₁⟩ := h₁
  obtain ⟨k', d', hk', hd', h₂⟩ := h₂
  by_cases hsame : (∀ v κ, Arc.mk d v κ ∈ a.net.arcs ↔ Arc.mk d' v κ ∈ a.net.arcs) ∧
    a.initial.tokens d = a.initial.tokens d' ∧ a.final.tokens d = a.final.tokens d'
  · obtain ⟨harcs, hinitial, hfinal⟩ := hsame
    have hswap := renamed_swap_places hd hd' harcs hinitial hfinal
    exact .inl ⟨hwf₁, hwf₂, _, _, hswap.withoutPlace h₁.without
      ((Equiv.swap_apply_left d d').symm ▸ h₂.without)⟩
  · -- the kept places are others than the ones left out, which would be twins otherwise
    have hne : d ≠ d' := by
      rintro rfl
      exact hsame ⟨fun _ _ => Iff.rfl, rfl, rfl⟩
    have hkd' : k ≠ d' := by
      rintro rfl
      exact hsame ⟨h₁.same, h₁.sameInitial, h₁.sameFinal⟩
    have hk'd : k' ≠ d := by
      rintro rfl
      exact hsame ⟨fun v κ => (h₂.same v κ).symm, h₂.sameInitial.symm, h₂.sameFinal.symm⟩
    obtain ⟨hk₁, hd₁, b₁, k₁⟩ := h₁.survives hk'd hne.symm hk' hd' h₂
    obtain ⟨hk₂, hd₂, b₂, k₂⟩ := h₂.survives hkd' hne hk hd h₁
    have hb₁ : TwinPlaceDropped a₁ b₁ := ⟨_, _, hk₁, hd₁, k₁⟩
    have hb₂ : TwinPlaceDropped a₂ b₂ := ⟨_, _, hk₂, hd₂, k₂⟩
    exact .inr ⟨b₁, b₂, hb₁, hb₂, hwf hwf₁ hb₁, hwf hwf₂ hb₂, _, _,
      h₁.without.comm k₁.without h₂.without k₂.without⟩

/-! ## Reset arcs -/

theorem exists_resetGone (ha : a.net.Consistent) (hreset : Arc.reset p t ∈ a.net.arcs) :
    ∃ n, a.net.ResetGone p t n := by
  obtain ⟨n, _, hgone⟩ := Reduction.exists_removeReset (s := ⟨a, []⟩) ha hreset
  exact ⟨n, hgone⟩

theorem blind_resets : Blind NeedlessResetDropped fun _ => False where
  wellFormed ha := fun ⟨_, _, _, _, hgone, hinitial, hfinal⟩ =>
    ⟨hgone.consistent, hinitial ▸ ha.initial, hfinal ▸ ha.final⟩
  lighter _ := fun ⟨_, _, hreset, _, hgone, _⟩ => hgone.weight_lt hreset
  similar {a b a'} hab := fun ⟨p, t, hreset, hin, hgone, hinitial, hfinal⟩ => by
    obtain ⟨f, g, hfg⟩ := hab.renamed
    have hreset' := (hfg.mem_arcs p t .reset).2 hreset
    have hin' := (hfg.mem_arcs p t .inhibitor).2 hin
    obtain ⟨n, hgone'⟩ := exists_resetGone hab.right.consistent hreset'
    refine ⟨⟨n, b.initial, b.final⟩, ⟨_, _, hreset', hin', hgone', rfl, rfl⟩,
      ⟨hgone.consistent, hinitial ▸ hab.left.initial, hfinal ▸ hab.left.final⟩,
      ⟨hgone'.consistent, hab.right.initial, hab.right.final⟩, f, g, ?_⟩
    exact hfg.withoutReset ⟨hgone, congrArg _ hinitial, congrArg _ hfinal⟩ ⟨hgone', rfl, rfl⟩
  stuck _ := id

theorem peak_resets : JoinsPeaks NeedlessResetDropped := by
  intro a a₁ a₂ ha h₁ h₂
  have hwf₁ := blind_resets.wellFormed ha h₁
  have hwf₂ := blind_resets.wellFormed ha h₂
  obtain ⟨p, t, hreset, hin, hgone, hinitial, hfinal⟩ := h₁
  obtain ⟨q, u, hreset', hin', hgone', hinitial', hfinal'⟩ := h₂
  have hwithout : WithoutReset p t a a₁ := ⟨hgone, congrArg _ hinitial, congrArg _ hfinal⟩
  have hwithout' : WithoutReset q u a a₂ := ⟨hgone', congrArg _ hinitial', congrArg _ hfinal'⟩
  by_cases hsame : p = q ∧ t = u
  · obtain ⟨rfl, rfl⟩ := hsame
    exact .inl ⟨hwf₁, hwf₂, _, _, (Renamed.refl a).withoutReset hwithout hwithout'⟩
  · have hne : Arc.reset p t ≠ Arc.reset q u := fun he =>
      hsame ⟨congrArg Arc.place he, congrArg Arc.transition he⟩
    have hkind : ∀ {r s v w}, Arc.inhibitor r v ≠ Arc.reset s w := fun he =>
      nomatch congrArg Arc.kind he
    have hreset₁ := (hgone.mem_arcs _).2 ⟨hreset', hne.symm⟩
    have hreset₂ := (hgone'.mem_arcs _).2 ⟨hreset, hne⟩
    obtain ⟨n₁, hgone₁⟩ := exists_resetGone hwf₁.consistent hreset₁
    obtain ⟨n₂, hgone₂⟩ := exists_resetGone hwf₂.consistent hreset₂
    refine .inr ⟨⟨n₁, a₁.initial, a₁.final⟩, ⟨n₂, a₂.initial, a₂.final⟩,
      ⟨q, u, hreset₁, (hgone.mem_arcs _).2 ⟨hin', hkind⟩, hgone₁, rfl, rfl⟩,
      ⟨p, t, hreset₂, (hgone'.mem_arcs _).2 ⟨hin, hkind⟩, hgone₂, rfl, rfl⟩,
      ⟨hgone₁.consistent, hwf₁.initial, hwf₁.final⟩, ⟨hgone₂.consistent, hwf₂.initial, hwf₂.final⟩,
      _, _, hwithout.comm ⟨hgone₁, rfl, rfl⟩ hwithout' ⟨hgone₂, rfl, rfl⟩⟩

/-! ## Self-loops -/

/-- Transitions that `ELT` matches at one place have the same arcs. -/
theorem SelfLoopTransitionSite.sameArcs (h : a.SelfLoopTransitionSite t p)
    (h' : a.SelfLoopTransitionSite u p) : a.net.SameArcs t a.net u := by
  intro q k
  by_cases hk : k = .output
  · subst hk
    exact (h.output q).trans (h'.output q).symm
  · exact (h.input q k hk).trans (h'.input q k hk).symm

/-- `ELT` leaves a self-loop at another place, since this place keeps all producers. -/
theorem SelfLoopTransitionSite.survives (ha : a.net.Consistent) (h : a.SelfLoopTransitionSite t p)
    (hgone : a.net.TransitionGone t a₁.net) (h' : a.SelfLoopTransitionSite u q) (hne : p ≠ q) :
    a₁.SelfLoopTransitionSite u q := by
  have hut : u ≠ t := by
    rintro rfl
    exact hne ((h'.output p).1 ((h.output p).2 rfl))
  have hsame := hgone.sameArcs hut
  have hproducers : a₁.net.producers q = a.net.producers q := by
    refine Net.transitionsAt_congr hgone.consistent.mirrored ha.mirrored fun v => ?_
    refine (hgone.mem_arcs ⟨q, v, .output⟩).trans (and_iff_left_of_imp fun hv he => hne ?_)
    subst he
    exact ((h.output q).1 hv).symm
  exact ⟨isSilent_of_transitionGone hgone hut h'.silent,
    fun r k hk => (hsame r k).symm.trans (h'.input r k hk),
    fun r => (hsame r .output).symm.trans (h'.output r), hproducers ▸ h'.produced⟩

theorem SelfLoopPlaceSite.survives (h : WithoutPlace p a a₁) (hfinal : a₁.final = a.final)
    (h' : a.SelfLoopPlaceSite q) (hne : q ≠ p) : a₁.SelfLoopPlaceSite q := by
  have hsame : ∀ t k, Arc.mk q t k ∈ a₁.net.arcs ↔ Arc.mk q t k ∈ a.net.arcs := fun t k =>
    (h.gone.mem_arcs ⟨q, t, k⟩).trans (and_iff_left hne)
  exact ⟨h.gone.hasPlace_iff.2 ⟨h'.live, hne⟩, h.initial q hne ▸ h'.marked, hfinal ▸ h'.notFinal,
    fun t ht => h'.refilled.free t ((hsame t .inhibitor).1 ht),
    fun t k hk ht => (hsame t .output).2 (h'.refilled.restored t k hk ((hsame t k).1 ht)),
    fun t ht => (h'.refilled.used t ((hsame t .output).1 ht)).imp (hsame t .input).2
      (hsame t .reset).2⟩

end AcceptingNet

namespace Reduction

variable {a a' a₁ a₂ : AcceptingNet} {p : PlaceId} {t : TransitionId}

theorem leads_selfLoopTransitions (ha : a.WellFormed) (h : selfLoopTransitions.Leads t a a') :
    ∃ p, a.SelfLoopTransitionSite t p ∧ WithoutTransition t a a' ∧ a'.WellFormed := by
  obtain ⟨p, l, steps, steps', hm, happly⟩ := h
  obtain ⟨_, n, hok, hgone⟩ :=
    exists_removeSelfLoopTransition (s := ⟨a, steps⟩) ha.consistent hm
  change removeSelfLoopTransition t p ⟨a, steps⟩ = _ at happly
  cases hok.symm.trans happly
  exact ⟨p, (selfLoopTransitionAt?_eq_some_iff ha.consistent.mirrored).1 hm, ⟨hgone, rfl, rfl⟩,
    hgone.consistent, ha.initial, ha.final⟩

theorem exists_leads_selfLoopTransitions (ha : a.WellFormed) (h : a.SelfLoopTransitionSite t p) :
    ∃ a', selfLoopTransitions.Leads t a a' := by
  have hm := (selfLoopTransitionAt?_eq_some_iff ha.consistent.mirrored).2 h
  obtain ⟨l, n, hok, _⟩ := exists_removeSelfLoopTransition (s := ⟨a, []⟩) ha.consistent hm
  exact ⟨_, p, l, [], [], hm, hok⟩

theorem blind_selfLoopTransitions : Blind selfLoopTransitions.Step fun _ => False where
  wellFormed ha := fun ⟨_, h⟩ => by
    obtain ⟨_, _, _, hwf⟩ := leads_selfLoopTransitions ha h
    exact hwf
  lighter ha := fun ⟨_, h⟩ => by
    obtain ⟨_, _, hwithout, _⟩ := leads_selfLoopTransitions ha h
    exact hwithout.gone.weight_lt
  similar hab := fun ⟨t, h⟩ => by
    obtain ⟨f, g, hfg⟩ := hab.renamed
    obtain ⟨p, hs, hwithout, hwf⟩ := leads_selfLoopTransitions hab.left h
    obtain ⟨b', h'⟩ := exists_leads_selfLoopTransitions hab.right
      (hfg.selfLoopTransitionSite hab.left hab.right hs)
    obtain ⟨_, _, hwithout', hwf'⟩ := leads_selfLoopTransitions hab.right h'
    exact ⟨b', ⟨_, h'⟩, hwf, hwf', f, g, hfg.withoutTransition hwithout hwithout'⟩
  stuck _ := id

theorem peak_selfLoopTransitions : JoinsPeaks selfLoopTransitions.Step := by
  intro a a₁ a₂ ha h₁ h₂
  obtain ⟨t, h₁⟩ := h₁
  obtain ⟨u, h₂⟩ := h₂
  obtain ⟨p, hs, hwithout, hwf₁⟩ := leads_selfLoopTransitions ha h₁
  obtain ⟨q, hs', hwithout', hwf₂⟩ := leads_selfLoopTransitions ha h₂
  by_cases hpq : p = q
  · subst hpq
    have hswap := renamed_swap_transitions hs.silent hs'.silent (hs.sameArcs hs')
    exact .inl ⟨hwf₁, hwf₂, _, _, hswap.withoutTransition hwithout
      ((Equiv.swap_apply_left t u).symm ▸ hwithout')⟩
  · obtain ⟨b₁, k₁⟩ := exists_leads_selfLoopTransitions hwf₁
      (hs.survives ha.consistent hwithout.gone hs' hpq)
    obtain ⟨b₂, k₂⟩ := exists_leads_selfLoopTransitions hwf₂
      (hs'.survives ha.consistent hwithout'.gone hs (Ne.symm hpq))
    obtain ⟨_, _, hwithout₁, hwf₁'⟩ := leads_selfLoopTransitions hwf₁ k₁
    obtain ⟨_, _, hwithout₂, hwf₂'⟩ := leads_selfLoopTransitions hwf₂ k₂
    exact .inr ⟨b₁, b₂, ⟨u, k₁⟩, ⟨t, k₂⟩, hwf₁', hwf₂', _, _,
      hwithout.comm hwithout₁ hwithout' hwithout₂⟩

theorem leads_selfLoopPlaces (ha : a.WellFormed) (h : selfLoopPlaces.Leads p a a') :
    a.SelfLoopPlaceSite p ∧ WithoutPlace p a a' ∧
      (a'.initial = (a.initial.take p).2 ∧ a'.final = a.final) ∧ a'.WellFormed := by
  obtain ⟨m, l, steps, steps', hm, happly⟩ := h
  have hmatch := selfLoopPlaces_match?_ne_none.1 (Option.ne_none_iff_exists'.2 ⟨m, hm⟩)
  obtain ⟨n, hok, hgone⟩ := exists_removeSelfLoopPlace (s := ⟨a, steps⟩) ha.consistent hmatch
  change removeSelfLoopPlace p ⟨a, steps⟩ = _ at happly
  cases hok.symm.trans happly
  exact ⟨(isSelfLoopPlace_iff ha.consistent.mirrored).1 hmatch,
    ⟨hgone, fun _ hq => Marking.tokens_take_of_ne hq, fun _ _ => rfl⟩, ⟨rfl, rfl⟩, hgone.consistent,
    ha.initial.take p, ha.final⟩

theorem exists_leads_selfLoopPlaces (ha : a.WellFormed) (h : a.SelfLoopPlaceSite p) :
    ∃ a', selfLoopPlaces.Leads p a a' := by
  have hmatch := (isSelfLoopPlace_iff ha.consistent.mirrored).2 h
  obtain ⟨m, hm⟩ := Option.ne_none_iff_exists'.1 (selfLoopPlaces_match?_ne_none.2 hmatch)
  obtain ⟨n, hok, _⟩ := exists_removeSelfLoopPlace (s := ⟨a, []⟩) ha.consistent hmatch
  exact ⟨_, m, [], [], [], hm, hok⟩

theorem blind_selfLoopPlaces : Blind selfLoopPlaces.Step fun _ => False where
  wellFormed ha := fun ⟨_, h⟩ => by
    obtain ⟨_, _, _, hwf⟩ := leads_selfLoopPlaces ha h
    exact hwf
  lighter ha := fun ⟨_, h⟩ => by
    obtain ⟨_, hwithout, _⟩ := leads_selfLoopPlaces ha h
    exact hwithout.gone.weight_lt
  similar hab := fun ⟨p, h⟩ => by
    obtain ⟨f, g, hfg⟩ := hab.renamed
    obtain ⟨hs, hwithout, _, hwf⟩ := leads_selfLoopPlaces hab.left h
    obtain ⟨b', h'⟩ := exists_leads_selfLoopPlaces hab.right
      (hfg.selfLoopPlaceSite hab.left hab.right hs)
    obtain ⟨_, hwithout', _, hwf'⟩ := leads_selfLoopPlaces hab.right h'
    exact ⟨b', ⟨_, h'⟩, hwf, hwf', f, g, hfg.withoutPlace hwithout hwithout'⟩
  stuck _ := id

theorem peak_selfLoopPlaces : JoinsPeaks selfLoopPlaces.Step := by
  intro a a₁ a₂ ha h₁ h₂
  obtain ⟨p, h₁⟩ := h₁
  obtain ⟨q, h₂⟩ := h₂
  obtain ⟨hs, hwithout, ⟨_, hfinal⟩, hwf₁⟩ := leads_selfLoopPlaces ha h₁
  obtain ⟨hs', hwithout', ⟨_, hfinal'⟩, hwf₂⟩ := leads_selfLoopPlaces ha h₂
  by_cases hpq : p = q
  · subst hpq
    exact .inl ⟨hwf₁, hwf₂, _, _, (Renamed.refl a).withoutPlace hwithout hwithout'⟩
  · obtain ⟨b₁, k₁⟩ := exists_leads_selfLoopPlaces hwf₁ (hs'.survives hwithout hfinal (Ne.symm hpq))
    obtain ⟨b₂, k₂⟩ := exists_leads_selfLoopPlaces hwf₂ (hs.survives hwithout' hfinal' hpq)
    obtain ⟨_, hwithout₁, _, hwf₁'⟩ := leads_selfLoopPlaces hwf₁ k₁
    obtain ⟨_, hwithout₂, _, hwf₂'⟩ := leads_selfLoopPlaces hwf₂ k₂
    exact .inr ⟨b₁, b₂, ⟨q, k₁⟩, ⟨p, k₂⟩, hwf₁', hwf₂', _, _,
      hwithout.comm hwithout₁ hwithout' hwithout₂⟩

end Reduction

/-! ## All rules -/

namespace Rule

/-- One application of the rule, to one twin of a group for `FPT` and `FPP` and to one arc for `R`. -/
def Step : Rule → AcceptingNet → AcceptingNet → Prop
  | .fst => Reduction.seriesTransitions.Step
  | .fsp => Reduction.seriesPlaces.Step
  | .fpt => TwinTransitionDropped
  | .fpp => TwinPlaceDropped
  | .elt => Reduction.selfLoopTransitions.Step
  | .elp => Reduction.selfLoopPlaces.Step
  | .a => Reduction.silentSteps.Step
  | .r => NeedlessResetDropped

/-- The rule matches and cannot be applied; only `FSP` can get there. -/
def Stuck : Rule → AcceptingNet → Prop
  | .fst => Reduction.seriesTransitions.Stuck
  | .fsp => Reduction.seriesPlaces.Stuck
  | .a => Reduction.silentSteps.Stuck
  | _ => fun _ => False

end Rule

namespace AcceptingNet

/-- The rule leads to where two of its matches clash. -/
def Contested (a : AcceptingNet) (rule : Rule) : Prop := Reduction.Contested rule.Step rule.Fuses a

/-- A step fuses two nodes where `FST`, `FSP` or `A` matches, or leaves out arcs and tokens only. -/
theorem step_cases {a a' : AcceptingNet} {rule : Rule} (ha : a.WellFormed) (h : rule.Step a a') :
    (∃ p u, rule.Fuses a p u ∧ a.Roomy p u ∧ FusedAt p u a a') ∨ Pruned a a' := by
  cases rule with
  | fst => exact .inl (Reduction.fusing_seriesTransitions.fusedAt_of_step ha h)
  | fsp => exact .inl (Reduction.fusing_seriesPlaces.fusedAt_of_step ha h)
  | fpt =>
    obtain ⟨_, _, h⟩ := h
    exact .inr h.without.pruned
  | fpp =>
    obtain ⟨_, _, _, _, h⟩ := h
    exact .inr (h.without.pruned h.initial)
  | elt =>
    obtain ⟨_, hi⟩ := h
    obtain ⟨_, _, hwithout, _⟩ := Reduction.leads_selfLoopTransitions ha hi
    exact .inr hwithout.pruned
  | elp =>
    obtain ⟨_, hi⟩ := h
    obtain ⟨_, hwithout, ⟨hinitial, _⟩, _⟩ := Reduction.leads_selfLoopPlaces ha hi
    exact .inr (hwithout.pruned hinitial)
  | a => exact .inl (Reduction.fusing_silentSteps.fusedAt_of_step ha h)
  | r =>
    obtain ⟨_, _, _, _, hgone, hinitial, hfinal⟩ := h
    exact .inr (WithoutReset.pruned ⟨hgone, congrArg _ hinitial, congrArg _ hfinal⟩)

/-- Counts that can be stored can be after a step. -/
theorem storable_of_step {a a' : AcceptingNet} {rule : Rule} (ha : a.WellFormed)
    (hstore : a.initial.Storable) (h : rule.Step a a') : a'.initial.Storable := by
  rcases step_cases ha h with ⟨_, _, _, hroom, hf⟩ | hpruned
  · exact hf.storable hroom hstore
  · exact hstore.mono hpruned.tokens

/-- Where counts can be stored and no two matches clash, the applications of each rule converge. -/
theorem convergent (rule : Rule) : Convergent rule.Step rule.Stuck fun a =>
    a.initial.Storable ∧ ¬ a.Contested rule := by
  have hstorable {a a' : AcceptingNet} (ha : a.WellFormed) (hstore : a.initial.Storable)
      (h : rule.Step a a') : a'.initial.Storable := storable_of_step ha hstore h
  cases rule with
  | fst => exact Reduction.fusing_seriesTransitions.convergent
  | fsp => exact Reduction.fusing_seriesPlaces.convergent
  | fpt => exact blind_twinTransitions.convergent (fun _ _ _ => id) hstorable peak_twinTransitions
  | fpp => exact blind_twinPlaces.convergent (fun _ _ _ => id) hstorable peak_twinPlaces
  | elt =>
    exact Reduction.blind_selfLoopTransitions.convergent (fun _ _ _ => id) hstorable
      Reduction.peak_selfLoopTransitions
  | elp =>
    exact Reduction.blind_selfLoopPlaces.convergent (fun _ _ _ => id) hstorable
      Reduction.peak_selfLoopPlaces
  | a => exact Reduction.fusing_silentSteps.convergent
  | r => exact blind_resets.convergent (fun _ _ _ => id) hstorable peak_resets

variable {a a' : AcceptingNet}

theorem matches_of_step {rule : Rule} (ha : a.WellFormed) (h : rule.Step a a') : a.Matches rule := by
  have hmirrored := ha.consistent.mirrored
  cases rule with
  | fst | fsp | elt | a =>
    obtain ⟨i, hi⟩ := h
    exact ⟨i, Reduction.LocalRule.matches_of_leads hi⟩
  | elp =>
    obtain ⟨i, hi⟩ := h
    exact ⟨i, Reduction.selfLoopPlaces_match?_ne_none.1 (Reduction.LocalRule.matches_of_leads hi)⟩
  | fpt =>
    obtain ⟨t, u, h⟩ := h
    exact ⟨t, u, h.ne, h.kept, h.silent,
      transitionShape_congr hmirrored hmirrored fun p k => (h.same p k).symm⟩
  | fpp =>
    obtain ⟨k, d, hk, hd, h⟩ := h
    exact ⟨d, k, h.ne.symm, hd, hk,
      placeShape_congr hmirrored hmirrored h.same h.sameInitial h.sameFinal⟩
  | r =>
    obtain ⟨p, t, hreset, hin, _⟩ := h
    exact ⟨t, ha.consistent.liveTransition _ hreset,
      List.ne_nil_of_mem ((mem_needlessResets hmirrored).2 ⟨hreset, hin⟩)⟩

theorem finished_of_not_matches {rule : Rule} (ha : a.WellFormed) (h : ¬ a.Matches rule) :
    Finished rule.Step rule.Stuck a := by
  refine ⟨fun hstuck => ?_, fun a' hstep => h (matches_of_step ha hstep)⟩
  cases rule with
  | fst | fsp | a =>
    obtain ⟨i, hi, _⟩ := hstuck
    exact h ⟨i, hi⟩
  | fpt | fpp | elt | elp | r => exact hstuck

end AcceptingNet

end ProcessNet
