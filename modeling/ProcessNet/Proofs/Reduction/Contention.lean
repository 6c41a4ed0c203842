/-
Where the order of anchors can matter. A rule that agglomerates a place and a silent transition matches at an
anchor still after it was applied at another one just if the two are not obstructed, and then the two
applications commute; where they are obstructed without a clash, one of them leaves the same as the other one,
up to ids. So without clashes the steps of such a rule converge: the fusions of series and the skipping of
silent steps.
-/
import ProcessNet.Proofs.Reduction.Clash
import ProcessNet.Proofs.Reduction.Convergence

namespace ProcessNet

open AcceptingNet
open Relation (ReflTransGen)

namespace Reduction.LocalRule

variable {ι : Type} (rule : LocalRule ι)

def Matches (a : AcceptingNet) (i : ι) : Prop := rule.match? a i ≠ none

/-- The rule, applied at `i`, leads from `a` to `a'`. -/
def Leads (i : ι) (a a' : AcceptingNet) : Prop :=
  ∃ m l steps steps', rule.match? a i = some m ∧ rule.apply i m ⟨a, steps⟩ = .ok l ⟨a', steps'⟩

/-- The rule is applied at some anchor. -/
def Step (a a' : AcceptingNet) : Prop := ∃ i, rule.Leads i a a'

/-- The rule matches at some anchor and cannot be applied there, as `FSP` where no count can tell the
tokens of both places. -/
def Stuck (a : AcceptingNet) : Prop := ∃ i, rule.Matches a i ∧ ∀ a', ¬ rule.Leads i a a'

variable {rule} {a a₁ : AcceptingNet} {i : ι}

theorem matches_iff : rule.Matches a i ↔ ∃ m, rule.match? a i = some m :=
  Option.ne_none_iff_exists'

theorem matches_of_leads (h : rule.Leads i a a₁) : rule.Matches a i := by
  obtain ⟨m, _, _, _, hm, _⟩ := h
  exact matches_iff.2 ⟨m, hm⟩

end Reduction.LocalRule

/-! ## Agglomerations share nothing -/

namespace Net

variable {n : Net} {p p' : PlaceId} {u u' : TransitionId}

/-- The place determines the transition, and the transition the place. -/
theorem Agglomerable.eq_of_shared (h : n.Agglomerable p u) (k : n.Agglomerable p' u')
    (hshared : p = p' ∨ u = u') : p = p' ∧ u = u' := by
  rcases hshared with rfl | rfl
  · exact ⟨rfl, k.consumer u h.input⟩
  · exact ⟨(k.sole p .input (by decide) h.input).1, rfl⟩

end Net

/-! ## Rules that agglomerate -/

namespace AcceptingNet

variable {a a₁ b : AcceptingNet} {p p' q q' : PlaceId} {t t' u u' : TransitionId}
  {f : Equiv.Perm PlaceId} {g : Equiv.Perm TransitionId}

theorem Renamed.roomy_iff (h : Renamed f g a b) (ha : a.net.Consistent) (hp : a.net.hasPlace p) :
    b.Roomy (f p) (g u) ↔ a.Roomy p u := by
  unfold Roomy
  rw [f.surjective.forall, h.initial p hp]
  refine forall_congr' fun q => ?_
  have harc : Arc.output (g u) (f q) ∈ b.net.arcs ↔ Arc.output u q ∈ a.net.arcs :=
    h.mem_arcs q u .output
  rw [harc]
  exact forall_congr' fun hq => by rw [h.initial q (ha.livePlace _ hq)]

/-! ### Matches that survive -/

/-- A place that is not marked stays so when no tokens are moved there. -/
theorem FusedAt.isMarked_eq_false (h : FusedAt p u a a₁) (ha : a.WellFormed) (ha₁ : a₁.WellFormed)
    (hp : a.isMarked p = false) (hne : p' ≠ p) (hp' : a.isMarked p' = false) :
    a₁.isMarked p' = false := by
  obtain ⟨hinitial, hfinal⟩ := ha.isMarked_eq_false_iff.1 hp'
  refine ha₁.isMarked_eq_false_iff.2 ⟨?_, by rw [h.final, hfinal]⟩
  rw [h.tokens hne, hinitial, (ha.isMarked_eq_false_iff.1 hp).1, ite_self]

/-- One transition leads into the other place still. If it was `u`, it is now the one that led into `p`. -/
theorem SeriesTransitionsSite.exists_producer (h : a.SeriesTransitionsSite p t u)
    (hf : a.net.Fused p u a₁.net) (h' : a.SeriesTransitionsSite p' t' u') (hne : p' ≠ p) :
    ∃ v, ∀ w, Arc.output w p' ∈ a₁.net.arcs ↔ w = v := by
  have hgone : Arc.output u p' ∉ a₁.net.arcs := fun ho => hf.transition_ne ho rfl
  by_cases ht' : t' = u
  · refine ⟨t, fun w => ?_⟩
    by_cases hw : w = u
    · exact hw ▸ iff_of_false hgone h.ne.symm
    · rw [hf.mem_output hw, h'.producer, h.producer, ht']
      exact (or_iff_right fun hb => hw hb.1).trans (and_iff_left (ht' ▸ (h'.producer t').2 rfl))
  · refine ⟨t', fun w => ?_⟩
    by_cases hw : w = u
    · exact hw ▸ iff_of_false hgone (Ne.symm ht')
    · rw [hf.mem_output hw, h'.producer, h'.producer]
      exact (or_iff_left fun hb => ht' hb.2.symm).trans (and_iff_left hne)

/-- Where `FST` matches, it matches still if the nodes can be agglomerated still. -/
theorem SeriesTransitionsSite.survives (h : a.SeriesTransitionsSite p t u) (ha : a.WellFormed)
    (ha₁ : a₁.WellFormed) (hf : FusedAt p u a a₁) (h' : a.SeriesTransitionsSite p' t' u')
    (hne : p' ≠ p ∧ u' ≠ u) (k : a₁.net.Agglomerable p' u') :
    ∃ v, a₁.SeriesTransitionsSite p' v u' := by
  obtain ⟨v, hv⟩ := h.exists_producer hf.net h' hne.1
  have hvp : Arc.output v p' ∈ a₁.net.arcs := (hv v).2 rfl
  refine ⟨v, {
    live := hf.net.hasPlace_iff.2 ⟨hne.1, h'.live⟩
    unmarked := hf.isMarked_eq_false ha ha₁ h.unmarked hne.1 h'.unmarked
    producer := hv
    leaving := fun w κ hκ => ?_
    ne := k.transition_ne hvp
    silent := k.silent
    sole := hf.net.soleInput_of_apart hne h'.sole
    apart := fun q hvq huq => k.apart v q hvp huq hvq
    unguarded := fun q w κ huq hκ hq => ?_ }⟩
  · rw [← h'.leaving w κ hκ]
    exact (hf.net.mem_iff_of_sole h.sole hκ hne.1).symm
  · have hq₀ := (hf.net.mem_iff_of_sole h.sole (Net.ne_output_of_guard hκ) (hf.net.place_ne huq)).2 hq
    rcases (hf.net.mem_output hne.2).1 huq with ⟨huq, _⟩ | ⟨_, huq⟩
    · exact h'.unguarded q w κ huq hκ hq₀
    · exact h.unguarded q w κ huq hκ hq₀

/-- A transition that leads to one place does so after an agglomeration: where `u` leads, if that place was
`p`. -/
theorem SeriesPlacesSite.exists_soleOutput (h : a.SeriesPlacesSite u p q) (hf : a.net.Fused p u a₁.net)
    (h' : a.SeriesPlacesSite u' p' q') (hne : u' ≠ u) : ∃ r, a₁.net.SoleOutput u' r := by
  by_cases hqp : q' = p
  · subst hqp
    refine ⟨q, fun r => ?_⟩
    rw [hf.mem_output hne, h.output, and_iff_right ((h'.output q').2 rfl)]
    exact or_iff_right fun hb => hb.2 ((h'.output r).1 hb.1)
  · refine ⟨q', fun r => ?_⟩
    have hp : Arc.output u' p ∉ a.net.arcs := fun hp => hqp ((h'.output p).1 hp).symm
    rw [hf.mem_output_of_not hne hp]
    exact h'.output r

/-- Where `FSP` matches, it matches still if the nodes can be agglomerated still. -/
theorem SeriesPlacesSite.survives (h : a.SeriesPlacesSite u p q) (ha : a.WellFormed)
    (ha₁ : a₁.WellFormed) (hf : FusedAt p u a a₁) (h' : a.SeriesPlacesSite u' p' q')
    (hne : p' ≠ p ∧ u' ≠ u) (k : a₁.net.Agglomerable p' u') : ∃ r, a₁.SeriesPlacesSite u' p' r := by
  obtain ⟨r, hr⟩ := h.exists_soleOutput hf.net h' hne.2
  have hserve : Arc.output u' r ∈ a₁.net.arcs := (hr r).2 rfl
  have hfinal : a₁.final.tokens p' = 0 := by
    rw [hf.final]
    exact ha.final.contains_eq_false_iff.1 h'.notFinal
  exact ⟨r, {
    silent := k.silent
    input := hf.net.soleInput_of_apart hne h'.input
    output := hr
    ne := (k.place_ne hserve).symm
    notFinal := ha₁.final.contains_eq_false_iff.2 hfinal
    consumer := hf.net.soleConsumer_of_apart hne h'.consumer
    apart := fun v hv => k.apart v r hv hserve
    guards := fun v κ hκ => (k.sameGuards hserve v κ hκ).symm }⟩

/-- Where `A` matches, it matches still if the nodes can be agglomerated still. -/
theorem SilentStepSite.survives (h : a.SilentStepSite u p) (ha : a.WellFormed) (ha₁ : a₁.WellFormed)
    (hf : FusedAt p u a a₁) (h' : a.SilentStepSite u' p') (hne : p' ≠ p ∧ u' ≠ u)
    (k : a₁.net.Agglomerable p' u') : a₁.SilentStepSite u' p' := by
  refine {
    silent := k.silent
    input := hf.net.soleInput_of_apart hne h'.input
    unmarked := hf.isMarked_eq_false ha ha₁ h.unmarked hne.1 h'.unmarked
    consumer := hf.net.soleConsumer_of_apart hne h'.consumer
    produced := ?_
    aimed := ?_
    noLoop := k.noLoop
    apart := k.apart
    guards := fun r hr => k.sameGuards hr }
  · obtain ⟨v, hv⟩ := h'.produced
    by_cases hvu : v = u
    · obtain ⟨w, hw⟩ := h.produced
      have hwu : w ≠ u := h.agglomerable.transition_ne hw
      exact ⟨w, (hf.net.mem_output hwu).2 (.inr ⟨hw, hvu ▸ hv⟩)⟩
    · exact ⟨v, (hf.net.mem_output hvu).2 (.inl ⟨hv, hne.1⟩)⟩
  · obtain ⟨r, hr⟩ := h'.aimed
    by_cases hrp : r = p
    · obtain ⟨x, hx⟩ := h.aimed
      exact ⟨x, (hf.net.mem_output hne.2).2 (.inr ⟨hrp ▸ hr, hx⟩)⟩
    · exact ⟨r, (hf.net.mem_output hne.2).2 (.inl ⟨hr, hrp⟩)⟩

/-- Where there was room for the tokens that were moved, counts are stored still. -/
theorem FusedAt.storable (h : FusedAt p u a a₁) (hroom : a.Roomy p u) (hstore : a.initial.Storable) :
    a₁.initial.Storable := by
  intro q
  have hq := hstore q
  have hsum := hroom q
  rw [h.initial, Net.forwarded]
  split
  · exact Nat.zero_le _
  · split
    · rename_i ho
      have hsum := hsum ho
      omega
    · exact hq

end AcceptingNet

namespace Reduction

/-- The rule agglomerates the place and the transition where it matches, wherever there is room for the
tokens; `Site a p u` says that it matches in `a` and at which nodes, `node` which of them is the anchor. -/
structure Fusing {ι : Type} (rule : LocalRule ι) (node : PlaceId → TransitionId → ι)
    (Site : AcceptingNet → PlaceId → TransitionId → Prop) : Prop where
  matches_iff : ∀ {a i}, a.WellFormed → (rule.Matches a i ↔ ∃ p u, node p u = i ∧ Site a p u)
  leads : ∀ {a i a'}, a.WellFormed → rule.Leads i a a' →
    ∃ p u, node p u = i ∧ Site a p u ∧ a.Roomy p u ∧ FusedAt p u a a' ∧ a'.WellFormed
  exists_leads : ∀ {a p u}, a.WellFormed → Site a p u → a.Roomy p u →
    ∃ a', rule.Leads (node p u) a a'
  agglomerable : ∀ {a p u}, Site a p u → a.net.Agglomerable p u
  shared : ∀ {p u p' u'}, node p u = node p' u' → p = p' ∨ u = u'
  aimed : ∀ {a p u p' u'}, Site a p u → Site a p' u' → 0 < a.initial.tokens p' →
    ∃ q, Arc.output u q ∈ a.net.arcs
  notFinal : ∀ {a p u}, Site a p u → a.final.tokens p = 0
  survives : ∀ {a a₁ p u p' u'}, a.WellFormed → a₁.WellFormed → Site a p u → Site a p' u' →
    FusedAt p u a a₁ → p' ≠ p ∧ u' ≠ u → a₁.net.Agglomerable p' u' → Site a₁ p' u'
  renamed : ∀ {a b f g p u}, Renamed f g a b → a.WellFormed → b.WellFormed → Site a p u →
    Site b (f p) (g u)

namespace Fusing

variable {ι : Type} {rule : LocalRule ι} {node : PlaceId → TransitionId → ι}
  {Site : AcceptingNet → PlaceId → TransitionId → Prop} {a a' a₁ a₂ b : AcceptingNet} {i j : ι}
  {p p' : PlaceId} {u u' : TransitionId} (h : Fusing rule node Site)

include h

theorem unique (hs : Site a p u) (hs' : Site a p' u') (hnode : node p u = node p' u') :
    p = p' ∧ u = u' :=
  (h.agglomerable hs).eq_of_shared (h.agglomerable hs') (h.shared hnode)

/-- Two matches share no node. -/
theorem apart (hs : Site a p u) (hs' : Site a p' u') (hne : ¬ (p = p' ∧ u = u')) :
    p' ≠ p ∧ u' ≠ u := by
  have hnot : ¬ (p' = p ∨ u' = u) := fun hshared =>
    hne ((h.agglomerable hs).eq_of_shared (h.agglomerable hs') (hshared.imp Eq.symm Eq.symm))
  exact not_or.1 hnot

/-- What an application does, told of the nodes that the rule matches at. -/
theorem fusedAt (ha : a.WellFormed) (hs : Site a p u) (hi : rule.Leads (node p u) a a') :
    a.Roomy p u ∧ FusedAt p u a a' ∧ a'.WellFormed := by
  obtain ⟨p', u', hnode, hs', hroom, hfused, hwf⟩ := h.leads ha hi
  obtain ⟨rfl, rfl⟩ := h.unique hs' hs hnode
  exact ⟨hroom, hfused, hwf⟩

/-- What a step does. -/
theorem fusedAt_of_step (ha : a.WellFormed) (hstep : rule.Step a a') :
    ∃ p u, Site a p u ∧ a.Roomy p u ∧ FusedAt p u a a' := by
  obtain ⟨i, hi⟩ := hstep
  obtain ⟨p, u, _, hs, hroom, hf, _⟩ := h.leads ha hi
  exact ⟨p, u, hs, hroom, hf⟩

/-- A step is an application at one of the matches. -/
theorem exists_site_of_step (ha : a.WellFormed) (hstep : rule.Step a a') :
    ∃ p u, Site a p u ∧ rule.Leads (node p u) a a' := by
  obtain ⟨i, hi⟩ := hstep
  obtain ⟨p, u, rfl, hs, _⟩ := h.leads ha hi
  exact ⟨p, u, hs, hi⟩

theorem stuck_iff (ha : a.WellFormed) :
    rule.Stuck a ↔ ∃ p u, Site a p u ∧ ¬ a.Roomy p u := by
  constructor
  · rintro ⟨i, hi, hnone⟩
    obtain ⟨p, u, rfl, hs⟩ := (h.matches_iff ha).1 hi
    refine ⟨p, u, hs, fun hroom => ?_⟩
    obtain ⟨a', ha'⟩ := h.exists_leads ha hs hroom
    exact hnone a' ha'
  · rintro ⟨p, u, hs, hnot⟩
    exact ⟨_, (h.matches_iff ha).2 ⟨p, u, rfl, hs⟩, fun a' hi => hnot (h.fusedAt ha hs hi).1⟩

/-- The rule matches elsewhere after an application just if the two matches are not obstructed. -/
theorem site_iff_not_obstructed (ha : a.WellFormed) (ha₁ : a₁.WellFormed) (hs : Site a p u)
    (hs' : Site a p' u') (hne : p' ≠ p ∧ u' ≠ u) (hf : FusedAt p u a a₁) :
    Site a₁ p' u' ↔ ¬ a.net.Obstructed p u p' u' := by
  rw [← hf.net.agglomerable_iff hne (h.agglomerable hs')]
  exact ⟨h.agglomerable, h.survives ha ha₁ hs hs' hf hne⟩

theorem blind : Blind rule.Step rule.Stuck where
  wellFormed ha := fun ⟨i, hi⟩ => by
    obtain ⟨_, _, _, _, _, _, hwf⟩ := h.leads ha hi
    exact hwf
  lighter ha := fun ⟨i, hi⟩ => by
    obtain ⟨_, _, _, _, _, hfused, _⟩ := h.leads ha hi
    exact hfused.net.weight_lt
  similar hab := fun ⟨i, hi⟩ => by
    obtain ⟨f, g, hfg⟩ := hab.renamed
    obtain ⟨p, u, _, hs, hroom, hfused, hwf⟩ := h.leads hab.left hi
    have hp := hab.left.consistent.livePlace _ (h.agglomerable hs).input
    have hs' := h.renamed hfg hab.left hab.right hs
    obtain ⟨b', hj⟩ := h.exists_leads hab.right hs'
      ((hfg.roomy_iff hab.left.consistent hp).2 hroom)
    obtain ⟨_, hfused', hwf'⟩ := h.fusedAt hab.right hs' hj
    exact ⟨b', ⟨_, hj⟩, hwf, hwf', f, g, hfg.fusedAt hab.left.consistent hfused hfused'⟩
  stuck hab hstuck := by
    obtain ⟨f, g, hfg⟩ := hab.renamed
    obtain ⟨p, u, hs, hnot⟩ := (h.stuck_iff hab.left).1 hstuck
    have hp := hab.left.consistent.livePlace _ (h.agglomerable hs).input
    exact (h.stuck_iff hab.right).2 ⟨f p, g u, h.renamed hfg hab.left hab.right hs,
      fun hroom => hnot ((hfg.roomy_iff hab.left.consistent hp).1 hroom)⟩

/-- Two applications at one match leave the same. -/
theorem similar_of_leads (ha : a.WellFormed) (hs : Site a p u) (h₁ : rule.Leads (node p u) a a₁)
    (h₂ : rule.Leads (node p u) a a₂) : Similar a₁ a₂ := by
  obtain ⟨_, hf₁, hwf₁⟩ := h.fusedAt ha hs h₁
  obtain ⟨_, hf₂, hwf₂⟩ := h.fusedAt ha hs h₂
  exact ⟨hwf₁, hwf₂, _, _, (Renamed.refl a).fusedAt ha.consistent hf₁ hf₂⟩

/-- Applications at two matches that do not obstruct each other commute. -/
theorem joins_of_not_obstructed (ha : a.WellFormed) (hs : Site a p u) (hs' : Site a p' u')
    (hne : p' ≠ p ∧ u' ≠ u) (h₁ : rule.Leads (node p u) a a₁) (h₂ : rule.Leads (node p' u') a a₂)
    (hfree : ¬ a.net.Obstructed p u p' u') :
    rule.Stuck a₁ ∨ ∃ b₁ b₂, rule.Step a₁ b₁ ∧ rule.Step a₂ b₂ ∧ Similar b₁ b₂ := by
  obtain ⟨hroom, hf₁, hwf₁⟩ := h.fusedAt ha hs h₁
  obtain ⟨_, hf₂, hwf₂⟩ := h.fusedAt ha hs' h₂
  have hs₁ := (h.site_iff_not_obstructed ha hwf₁ hs hs' hne hf₁).2 hfree
  have hs₂ := (h.site_iff_not_obstructed ha hwf₂ hs' hs ⟨hne.1.symm, hne.2.symm⟩ hf₂).2
    fun hobstructed => hfree hobstructed.symm
  by_cases hroom₁ : a₁.Roomy p' u'
  · have hroom₂ := hroom.across hf₁ (h.agglomerable hs₁) hroom₁ hf₂ (h.agglomerable hs₂)
    obtain ⟨b₁, hb₁⟩ := h.exists_leads hwf₁ hs₁ hroom₁
    obtain ⟨b₂, hb₂⟩ := h.exists_leads hwf₂ hs₂ hroom₂
    obtain ⟨_, k₁, hwf₁'⟩ := h.fusedAt hwf₁ hs₁ hb₁
    obtain ⟨_, k₂, hwf₂'⟩ := h.fusedAt hwf₂ hs₂ hb₂
    exact .inr ⟨b₁, b₂, ⟨_, hb₁⟩, ⟨_, hb₂⟩, hwf₁', hwf₂', _, _, hf₁.comm k₁ hf₂ k₂⟩
  · exact .inl ((h.stuck_iff hwf₁).2 ⟨p', u', hs₁, hroom₁⟩)

/-- What an application leaves where another match is obstructed without a clash is what the application
there leaves, up to ids. -/
theorem similar_of_obstructed (ha : a.WellFormed) (hs : Site a p u) (hs' : Site a p' u')
    (hne : p' ≠ p ∧ u' ≠ u) (h₁ : rule.Leads (node p u) a a₁) (h₂ : rule.Leads (node p' u') a a₂)
    (hobstructed : a.net.Obstructed p u p' u') (hfree : ¬ a.Clash p u p' u') : Similar a₁ a₂ := by
  obtain ⟨_, hf₁, hwf₁⟩ := h.fusedAt ha hs h₁
  obtain ⟨_, hf₂, hwf₂⟩ := h.fusedAt ha hs' h₂
  have hswap := interchangeable_of_obstructed (h.agglomerable hs) (h.agglomerable hs') hobstructed hfree
  exact ⟨hwf₁, hwf₂, _, _, hf₁.renamed_of_interchangeable hf₂ ha.consistent hne hswap
    ((h.notFinal hs).trans (h.notFinal hs').symm)⟩

end Fusing

/-- Applications by `Step`, in any order, lead to where the rule matches at two `Site`s that clash. -/
def Contested (Step : AcceptingNet → AcceptingNet → Prop)
    (Site : AcceptingNet → PlaceId → TransitionId → Prop) (a : AcceptingNet) : Prop :=
  ∃ a', ReflTransGen Step a a' ∧ ∃ p u p' u', Site a' p u ∧ Site a' p' u' ∧ a'.Clash p u p' u'

variable {ι : Type} {rule : LocalRule ι} {node : PlaceId → TransitionId → ι}
  {Site : AcceptingNet → PlaceId → TransitionId → Prop} {a : AcceptingNet} {p p' : PlaceId}
  {u u' : TransitionId}

theorem not_clash_of_not_contested (hfree : ¬ Contested rule.Step Site a) (hs : Site a p u)
    (hs' : Site a p' u') : ¬ a.Clash p u p' u' :=
  fun hclash => hfree ⟨a, .refl, p, u, p', u', hs, hs', hclash⟩

/-- Where no two matches clash, the applications converge. -/
theorem Fusing.convergent (h : Fusing rule node Site) : Convergent rule.Step rule.Stuck fun a =>
    a.initial.Storable ∧ ¬ Contested rule.Step Site a where
  toBlind := h.blind
  sound ha := fun ⟨hstore, hfree⟩ hstep => by
    obtain ⟨p, u, _, hroom, hf⟩ := h.fusedAt_of_step ha hstep
    exact ⟨hf.storable hroom hstore,
      fun ⟨a', hsteps, hclash⟩ => hfree ⟨a', hsteps.head hstep, hclash⟩⟩
  stays {a a'} ha := fun ⟨hstore, hfree⟩ hstuck hstep => by
    obtain ⟨p', u', hs', hnot⟩ := (h.stuck_iff ha).1 hstuck
    obtain ⟨p, u, hs, hi⟩ := h.exists_site_of_step ha hstep
    obtain ⟨hroom, hf, hwf⟩ := h.fusedAt ha hs hi
    have hne := h.apart hs hs' fun ⟨hp, hu⟩ => hnot (hp ▸ hu ▸ hroom)
    by_cases hobstructed : a.net.Obstructed p u p' u'
    · have hswap := interchangeable_of_obstructed (h.agglomerable hs) (h.agglomerable hs') hobstructed
        (not_clash_of_not_contested hfree hs hs')
      exact absurd (hswap.roomy (h.agglomerable hs') hstore hroom) hnot
    · have hs₁ := (h.site_iff_not_obstructed ha hwf hs hs' hne hf).2 hobstructed
      exact (h.stuck_iff hwf).2 ⟨p', u', hs₁, fun hroom₁ =>
        hnot (hroom₁.of_fusedAt hf (h.agglomerable hs₁) (h.aimed hs hs'))⟩
  joins {a a₁ a₂} ha := fun ⟨_, hfree⟩ hstep₁ hstep₂ => by
    obtain ⟨p, u, hs, h₁⟩ := h.exists_site_of_step ha hstep₁
    obtain ⟨p', u', hs', h₂⟩ := h.exists_site_of_step ha hstep₂
    by_cases hsame : p = p' ∧ u = u'
    · obtain ⟨rfl, rfl⟩ := hsame
      exact .inr ⟨a₁, a₂, .refl, .refl, h.similar_of_leads ha hs h₁ h₂⟩
    have hne := h.apart hs hs' hsame
    by_cases hobstructed : a.net.Obstructed p u p' u'
    · exact .inr ⟨a₁, a₂, .refl, .refl, h.similar_of_obstructed ha hs hs' hne h₁ h₂ hobstructed
        (not_clash_of_not_contested hfree hs hs')⟩
    · refine (h.joins_of_not_obstructed ha hs hs' hne h₁ h₂ hobstructed).imp_right ?_
      rintro ⟨b₁, b₂, hb₁, hb₂, hsim⟩
      exact ⟨b₁, b₂, .single hb₁, .single hb₂, hsim⟩

end Reduction

/-! ## The rules that fuse series and skip silent steps -/

/-- The rule matches at the place and the transition and agglomerates them. Only `FST`, `FSP` and `A` do. -/
def Rule.Fuses : Rule → AcceptingNet → PlaceId → TransitionId → Prop
  | .fst, b, p, u => ∃ t, b.SeriesTransitionsSite p t u
  | .fsp, b, p, u => ∃ q, b.SeriesPlacesSite u p q
  | .a, b, p, u => b.SilentStepSite u p
  | _, _, _, _ => False

theorem Rule.Fuses.agglomerable {rule : Rule} {a : AcceptingNet} {p : PlaceId} {u : TransitionId}
    (h : rule.Fuses a p u) : a.net.Agglomerable p u := by
  cases rule with
  | fst | fsp =>
    obtain ⟨_, hs⟩ := h
    exact hs.agglomerable
  | a => exact SilentStepSite.agglomerable h
  | fpt | fpp | elt | elp | r => exact h.elim

namespace Reduction

theorem fusedAt_of_unmarked {a : AcceptingNet} {p : PlaceId} {u : TransitionId} {n : Net}
    (ha : a.WellFormed) (hf : a.net.Fused p u n) (hunmarked : a.isMarked p = false) :
    a.Roomy p u ∧ FusedAt p u a ⟨n, a.initial, a.final⟩ ∧
      WellFormed ⟨n, a.initial, a.final⟩ := by
  have hempty := (tokens_of_not_isMarked hunmarked).1
  exact ⟨roomy_of_empty hempty, ⟨hf, (Net.forwarded_of_empty hempty).symm, rfl⟩,
    (kept_of_fused_of_unmarked ha hf hunmarked).wellFormed⟩

theorem fusing_seriesTransitions : Fusing seriesTransitions (fun p _ => p) (Rule.Fuses .fst) where
  matches_iff {a i} ha := by
    have hsite {m} := seriesTransitionsAt?_eq_some_iff (p := i) (m := m) ha.consistent.mirrored
    rw [LocalRule.matches_iff]
    constructor
    · rintro ⟨m, hm⟩
      exact ⟨i, m.second, rfl, m.first, hsite.1 hm⟩
    · rintro ⟨p, u, rfl, t, hs⟩
      exact ⟨⟨t, u⟩, hsite.2 hs⟩
  leads {a i a'} ha := by
    rintro ⟨m, l, steps, steps', hm, happly⟩
    have hs := (seriesTransitionsAt?_eq_some_iff ha.consistent.mirrored).1 hm
    obtain ⟨_, n, hok, hf⟩ := exists_fuseSeriesTransitions (s := ⟨a, steps⟩) ha.consistent hm
    change fuseSeriesTransitions i m ⟨a, steps⟩ = _ at happly
    cases hok.symm.trans happly
    exact ⟨i, m.second, rfl, ⟨m.first, hs⟩, fusedAt_of_unmarked ha hf hs.unmarked⟩
  exists_leads {a p u} ha := by
    rintro ⟨t, hs⟩ _
    have hm := (seriesTransitionsAt?_eq_some_iff (m := ⟨t, u⟩) ha.consistent.mirrored).2 hs
    obtain ⟨l, n, hok, _⟩ := exists_fuseSeriesTransitions (s := ⟨a, []⟩) ha.consistent hm
    exact ⟨_, _, l, [], [], hm, hok⟩
  agglomerable := fun ⟨_, hs⟩ => hs.agglomerable
  shared := .inl
  aimed := fun _ ⟨_, hs'⟩ hp' =>
    absurd (tokens_of_not_isMarked hs'.unmarked).1 (Nat.ne_of_gt hp')
  notFinal := fun ⟨_, hs⟩ => (tokens_of_not_isMarked hs.unmarked).2
  survives ha ha₁ := fun ⟨_, hs⟩ ⟨_, hs'⟩ hf hne k => hs.survives ha ha₁ hf hs' hne k
  renamed h ha hb := fun ⟨_, hs⟩ => ⟨_, h.seriesTransitionsSite ha hb hs⟩

theorem fusing_seriesPlaces : Fusing seriesPlaces (fun _ u => u) (Rule.Fuses .fsp) where
  matches_iff {a i} ha := by
    have hsite {m} := seriesPlacesAt?_eq_some_iff (t := i) (m := m) ha.consistent.mirrored
    rw [LocalRule.matches_iff]
    constructor
    · rintro ⟨m, hm⟩
      exact ⟨m.first, i, rfl, m.second, hsite.1 hm⟩
    · rintro ⟨p, u, rfl, q, hs⟩
      exact ⟨⟨p, q⟩, hsite.2 hs⟩
  leads {a i a'} ha := by
    rintro ⟨m, l, steps, steps', hm, happly⟩
    have hs := (seriesPlacesAt?_eq_some_iff ha.consistent.mirrored).1 hm
    have hends := ends_fuseSeriesPlaces (s := ⟨a, steps⟩) ha.consistent hm
    change fuseSeriesPlaces i m ⟨a, steps⟩ = _ at happly
    rw [happly] at hends
    obtain ⟨n, initial, hf, hmove, he⟩ := hends
    cases he
    have hinitial := tokens_of_seriesPlaces ha.consistent.mirrored hm hmove
    refine ⟨m.first, i, rfl, ⟨m.second, hs⟩, fun q hq hp => ?_, ⟨hf, hinitial, rfl⟩,
      (kept_of_fused ha hf (ha.initial.moveAll hmove) hinitial
        (Marking.tokens_of_not_contains hs.notFinal)).wellFormed⟩
    rw [(hs.output q).1 hq]
    exact (Marking.exists_moveAll_iff hs.ne.symm).1 ⟨initial, hmove⟩ hp
  exists_leads {a p u} ha := by
    rintro ⟨q, hs⟩ hroom
    have hm := (seriesPlacesAt?_eq_some_iff (m := ⟨p, q⟩) ha.consistent.mirrored).2 hs
    have hends := ends_fuseSeriesPlaces (s := ⟨a, []⟩) ha.consistent hm
    cases hrun : fuseSeriesPlaces u ⟨p, q⟩ ⟨a, []⟩ with
    | ok l s' => exact ⟨s'.accepting, _, l, [], s'.steps, hm, hrun⟩
    | error e s' =>
      rw [hrun] at hends
      obtain ⟨_, hmove⟩ := (Marking.exists_moveAll_iff hs.ne.symm).2
        (hroom q ((hs.output q).2 rfl))
      exact nomatch hmove.symm.trans hends.2.2.2.2
  agglomerable := fun ⟨_, hs⟩ => hs.agglomerable
  shared := .inr
  aimed := fun ⟨q, hs⟩ _ _ => ⟨q, (hs.output q).2 rfl⟩
  notFinal := fun ⟨_, hs⟩ => Marking.tokens_of_not_contains hs.notFinal
  survives ha ha₁ := fun ⟨_, hs⟩ ⟨_, hs'⟩ hf hne k => hs.survives ha ha₁ hf hs' hne k
  renamed h ha hb := fun ⟨_, hs⟩ => ⟨_, h.seriesPlacesSite ha hb hs⟩

theorem fusing_silentSteps : Fusing silentSteps (fun _ u => u) (Rule.Fuses .a) where
  matches_iff {a i} ha := by
    have hsite {m} := silentStepAt?_eq_some_iff (t := i) (m := m) ha.consistent.mirrored
    rw [LocalRule.matches_iff]
    constructor
    · rintro ⟨m, hm⟩
      exact ⟨m.place, i, rfl, (hsite.1 hm).1⟩
    · rintro ⟨p, u, rfl, hs⟩
      exact ⟨⟨p, a.net.producers p, a.net.postset u⟩, hsite.2 ⟨hs, rfl, rfl⟩⟩
  leads {a i a'} ha := by
    rintro ⟨m, l, steps, steps', hm, happly⟩
    have hs := ((silentStepAt?_eq_some_iff ha.consistent.mirrored).1 hm).1
    obtain ⟨_, n, hok, hf⟩ := exists_skipSilentStep (s := ⟨a, steps⟩) ha.consistent hm
    change skipSilentStep i m ⟨a, steps⟩ = _ at happly
    cases hok.symm.trans happly
    exact ⟨m.place, i, rfl, hs, fusedAt_of_unmarked ha hf hs.unmarked⟩
  exists_leads {a p u} ha hs _ := by
    have hm := (silentStepAt?_eq_some_iff (m := ⟨p, a.net.producers p, a.net.postset u⟩)
      ha.consistent.mirrored).2 ⟨hs, rfl, rfl⟩
    obtain ⟨l, n, hok, _⟩ := exists_skipSilentStep (s := ⟨a, []⟩) ha.consistent hm
    exact ⟨_, _, l, [], [], hm, hok⟩
  agglomerable hs := hs.agglomerable
  shared := .inr
  aimed _ hs' hp' := absurd (tokens_of_not_isMarked hs'.unmarked).1 (Nat.ne_of_gt hp')
  notFinal hs := (tokens_of_not_isMarked hs.unmarked).2
  survives ha ha₁ hs hs' hf hne k := hs.survives ha ha₁ hf hs' hne k
  renamed h ha hb hs := h.silentStepSite ha hb hs

end Reduction

end ProcessNet
