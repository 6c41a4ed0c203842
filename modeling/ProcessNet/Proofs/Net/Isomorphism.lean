/-
Accepting nets that differ in ids only. An isomorphism is a bijection of the live places and of the live
transitions that keeps labels, arcs of every kind and the tokens of both markings; names, roles and the
order of arcs do not matter. Ids that are free have no part in it, so between consistent nets it can as well
be given by permutations of all ids, and these can be composed and inverted without regard to what is live.
-/
import Mathlib.Data.Set.Finite.Basic
import Mathlib.Logic.Equiv.Fintype
import ProcessNet.Net.Accepting
import ProcessNet.Net.Size
import ProcessNet.Proofs.Net.Consistent
import ProcessNet.Proofs.Net.Simulation

namespace ProcessNet.AcceptingNet

/-- `f` and `g` take the live places and transitions of `a` one by one to those of `b`, with their labels,
their arcs and their tokens. -/
structure Isomorphism (f : PlaceId → PlaceId) (g : TransitionId → TransitionId)
    (a b : AcceptingNet) : Prop where
  places : Set.BijOn f {p | a.net.hasPlace p} {p | b.net.hasPlace p}
  transitions : Set.BijOn g {t | a.net.hasTransition t} {t | b.net.hasTransition t}
  label : ∀ t, a.net.hasTransition t → b.net.label? (g t) = a.net.label? t
  arcs : ∀ p t k, a.net.hasPlace p → a.net.hasTransition t →
    (Arc.mk (f p) (g t) k ∈ b.net.arcs ↔ Arc.mk p t k ∈ a.net.arcs)
  initial : ∀ p, a.net.hasPlace p → b.initial.tokens (f p) = a.initial.tokens p
  final : ∀ p, a.net.hasPlace p → b.final.tokens (f p) = a.final.tokens p

/-- The nets are the same up to ids, names and the order of insertion. -/
def Isomorphic (a b : AcceptingNet) : Prop := ∃ f g, Isomorphism f g a b

/-! ## Renamings -/

/-- `b` is `a` with the ids renamed, those of dead nodes included. -/
structure Renamed (f : Equiv.Perm PlaceId) (g : Equiv.Perm TransitionId) (a b : AcceptingNet) :
    Prop where
  hasPlace : ∀ p, b.net.hasPlace (f p) = a.net.hasPlace p
  hasTransition : ∀ t, b.net.hasTransition (g t) = a.net.hasTransition t
  label : ∀ t, b.net.label? (g t) = a.net.label? t
  mem_arcs : ∀ p t k, Arc.mk (f p) (g t) k ∈ b.net.arcs ↔ Arc.mk p t k ∈ a.net.arcs
  initial : ∀ p, a.net.hasPlace p → b.initial.tokens (f p) = a.initial.tokens p
  final : ∀ p, a.net.hasPlace p → b.final.tokens (f p) = a.final.tokens p

namespace Renamed

variable {f f' : Equiv.Perm PlaceId} {g g' : Equiv.Perm TransitionId} {a b c : AcceptingNet}

theorem refl (a : AcceptingNet) : Renamed (Equiv.refl _) (Equiv.refl _) a a :=
  ⟨fun _ => rfl, fun _ => rfl, fun _ => rfl, fun _ _ _ => Iff.rfl, fun _ _ => rfl, fun _ _ => rfl⟩

theorem symm (h : Renamed f g a b) : Renamed f.symm g.symm b a where
  hasPlace p := by rw [← h.hasPlace, f.apply_symm_apply]
  hasTransition t := by rw [← h.hasTransition, g.apply_symm_apply]
  label t := by rw [← h.label, g.apply_symm_apply]
  mem_arcs p t k := by rw [← h.mem_arcs, f.apply_symm_apply, g.apply_symm_apply]
  initial p hp := by
    rw [← h.initial (f.symm p) (by rwa [← h.hasPlace, f.apply_symm_apply]), f.apply_symm_apply]
  final p hp := by
    rw [← h.final (f.symm p) (by rwa [← h.hasPlace, f.apply_symm_apply]), f.apply_symm_apply]

theorem trans (h : Renamed f g a b) (k : Renamed f' g' b c) :
    Renamed (f.trans f') (g.trans g') a c where
  hasPlace p := (k.hasPlace (f p)).trans (h.hasPlace p)
  hasTransition t := (k.hasTransition (g t)).trans (h.hasTransition t)
  label t := (k.label (g t)).trans (h.label t)
  mem_arcs p t κ := (k.mem_arcs (f p) (g t) κ).trans (h.mem_arcs p t κ)
  initial p hp := (k.initial (f p) ((h.hasPlace p).trans hp)).trans (h.initial p hp)
  final p hp := (k.final (f p) ((h.hasPlace p).trans hp)).trans (h.final p hp)

theorem isSilent (h : Renamed f g a b) (t : TransitionId) :
    b.net.isSilent (g t) ↔ a.net.isSilent t := by
  rw [Net.isSilent_iff, Net.isSilent_iff, h.hasTransition, h.label]

theorem isomorphism (h : Renamed f g a b) : Isomorphism f g a b where
  places := by
    refine ⟨fun p hp => (h.hasPlace p).trans hp, f.injective.injOn, fun q hq => ⟨f.symm q, ?_, ?_⟩⟩
    · exact (h.symm.hasPlace q).trans hq
    · exact f.apply_symm_apply q
  transitions := by
    refine ⟨fun t ht => (h.hasTransition t).trans ht, g.injective.injOn,
      fun u hu => ⟨g.symm u, ?_, ?_⟩⟩
    · exact (h.symm.hasTransition u).trans hu
    · exact g.apply_symm_apply u
  label t _ := h.label t
  arcs p t k _ _ := h.mem_arcs p t k
  initial := h.initial
  final := h.final

end Renamed

/-! ## From the live ids to all ids -/

/-- A bijection between finite sets of ids is part of a permutation of all ids. -/
theorem exists_perm_of_bijOn {ι : Type} {f : ι → ι} {A B : Set ι} (hA : A.Finite)
    (h : Set.BijOn f A B) : ∃ σ : Equiv.Perm ι, (∀ i ∈ A, σ i = f i) ∧ ∀ i, σ i ∈ B ↔ i ∈ A := by
  have : Finite A := hA
  obtain ⟨σ, hσ⟩ := Equiv.Perm.exists_extending_pair (fun i : A => (i : ι)) (fun i : A => f i)
    Subtype.val_injective fun i j hij => Subtype.ext (h.injOn i.2 j.2 hij)
  have hagree : ∀ i ∈ A, σ i = f i := fun i hi => hσ ⟨i, hi⟩
  refine ⟨σ, hagree, fun i => ⟨fun hi => ?_, fun hi => hagree i hi ▸ h.mapsTo hi⟩⟩
  obtain ⟨j, hj, hji⟩ := h.surjOn hi
  exact σ.injective ((hagree j hj).trans hji) ▸ hj

theorem finite_hasPlace (n : Net) : {p | n.hasPlace p}.Finite :=
  n.placeIds.finite_toSet.subset fun _ hp => Net.mem_placeIds.2 hp

theorem finite_hasTransition (n : Net) : {t | n.hasTransition t}.Finite :=
  n.transitionIds.finite_toSet.subset fun _ ht => Net.mem_transitionIds.2 ht

theorem label?_eq_none_of_dead {n : Net} {t : TransitionId} (h : ¬ n.hasTransition t) :
    n.label? t = none := by
  rw [Net.hasTransition, Option.not_isSome_iff_eq_none] at h
  rw [Net.label?, h]
  rfl

/-- An isomorphism of consistent nets is a renaming of all ids, as far as the live ones go. -/
theorem Isomorphism.exists_renamed {f : PlaceId → PlaceId} {g : TransitionId → TransitionId}
    {a b : AcceptingNet} (h : Isomorphism f g a b) (ha : a.net.Consistent) (hb : b.net.Consistent) :
    ∃ f' g', Renamed f' g' a b := by
  obtain ⟨f', hf, hplaces⟩ := exists_perm_of_bijOn (finite_hasPlace a.net) h.places
  obtain ⟨g', hg, htransitions⟩ := exists_perm_of_bijOn (finite_hasTransition a.net) h.transitions
  refine ⟨f', g', fun p => Bool.eq_iff_iff.2 (hplaces p), fun t => Bool.eq_iff_iff.2 (htransitions t),
    fun t => ?_, fun p t k => ?_, fun p hp => ?_, fun p hp => ?_⟩
  · by_cases ht : a.net.hasTransition t
    · rw [hg t ht, h.label t ht]
    · rw [label?_eq_none_of_dead ht, label?_eq_none_of_dead fun hu => ht ((htransitions t).1 hu)]
  · -- an arc has live ends, so either both arcs are away or the isomorphism tells of them
    constructor
    · intro harc
      have hp := (hplaces p).1 (hb.livePlace _ harc)
      have ht := (htransitions t).1 (hb.liveTransition _ harc)
      rw [hf p hp, hg t ht] at harc
      exact (h.arcs p t k hp ht).1 harc
    · intro harc
      have hp := ha.livePlace _ harc
      have ht := ha.liveTransition _ harc
      rw [hf p hp, hg t ht]
      exact (h.arcs p t k hp ht).2 harc
  · rw [hf p hp, h.initial p hp]
  · rw [hf p hp, h.final p hp]

/-! ## Sizes -/

/-- Lists without repetitions are equally long if a bijection takes the members of one to those of the
other. -/
theorem length_eq_of_perm {ι : Type} {l m : List ι} (hl : l.Nodup) (hm : m.Nodup) (σ : Equiv.Perm ι)
    (h : ∀ i, σ i ∈ m ↔ i ∈ l) : m.length = l.length := by
  have hperm : List.Perm m (l.map σ) := by
    refine (List.perm_ext_iff_of_nodup hm (hl.map σ.injective)).2 fun i => ?_
    rw [← σ.apply_symm_apply i, h, List.mem_map_of_injective σ.injective]
  rw [hperm.length_eq, List.length_map]

/-- The arc between the renamed nodes. -/
def renameArc (f : Equiv.Perm PlaceId) (g : Equiv.Perm TransitionId) : Equiv.Perm Arc where
  toFun b := ⟨f b.place, g b.transition, b.kind⟩
  invFun b := ⟨f.symm b.place, g.symm b.transition, b.kind⟩
  left_inv b := by simp
  right_inv b := by simp

theorem placeCount_eq {n : Net} (h : n.Consistent) : n.placeCount = n.placeIds.length := by
  rw [Net.placeCount, h.placeNames.size, Net.placeIds, List.length_map]
  exact (Arena.length_filterMap_entries n.places fun p x => (p, x)).symm

theorem transitionCount_eq {n : Net} (h : n.Consistent) :
    n.transitionCount = n.transitionIds.length := by
  rw [Net.transitionCount, h.transitionNames.size, Net.transitionIds, List.length_map]
  exact (Arena.length_filterMap_entries n.transitions fun t x => (t, x)).symm

/-- Renamed nets are of one size. -/
theorem Renamed.measure_eq {f : Equiv.Perm PlaceId} {g : Equiv.Perm TransitionId} {a b : AcceptingNet}
    (h : Renamed f g a b) (ha : a.net.Consistent) (hb : b.net.Consistent) :
    b.net.measure = a.net.measure := by
  have hplaces := length_eq_of_perm (Net.nodup_placeIds a.net) (Net.nodup_placeIds b.net) f fun p => by
    rw [Net.mem_placeIds, Net.mem_placeIds, h.hasPlace]
  have htransitions := length_eq_of_perm (Net.nodup_transitionIds a.net)
    (Net.nodup_transitionIds b.net) g fun t => by
    rw [Net.mem_transitionIds, Net.mem_transitionIds, h.hasTransition]
  have harcs : b.net.arcs.length = a.net.arcs.length :=
    length_eq_of_perm ha.mirrored.nodup hb.mirrored.nodup (renameArc f g) fun e =>
      h.mem_arcs e.place e.transition e.kind
  unfold Net.measure
  rw [placeCount_eq ha, placeCount_eq hb, transitionCount_eq ha, transitionCount_eq hb, hplaces,
    htransitions]
  exact congrArg _ harcs

/-! ## Finding out -/

/-- A bijection between the members of two lists makes one out of the other, up to the order. -/
theorem bijOn_iff_perm {ι : Type} {f : ι → ι} {l m : List ι} (hl : l.Nodup) (hm : m.Nodup) :
    Set.BijOn f {i | i ∈ l} {i | i ∈ m} ↔ (l.map f).Perm m := by
  constructor
  · intro h
    refine (List.perm_ext_iff_of_nodup (hl.map_on fun i hi j hj => h.injOn hi hj) hm).2 fun i => ?_
    rw [List.mem_map]
    exact ⟨fun ⟨j, hj, hi⟩ => hi ▸ h.mapsTo hj, fun hi => h.surjOn hi⟩
  · intro h
    refine ⟨fun i hi => h.subset (List.mem_map_of_mem hi),
      fun i hi j hj => List.inj_on_of_nodup_map (h.nodup_iff.2 hm) hi hj, fun i hi => ?_⟩
    exact List.mem_map.1 (h.symm.subset hi)

/-- An isomorphism is a matter of the finitely many live nodes. -/
theorem isomorphism_iff {f : PlaceId → PlaceId} {g : TransitionId → TransitionId}
    {a b : AcceptingNet} : Isomorphism f g a b ↔
      (a.net.placeIds.map f).Perm b.net.placeIds ∧
      (a.net.transitionIds.map g).Perm b.net.transitionIds ∧
      (∀ t ∈ a.net.transitionIds, b.net.label? (g t) = a.net.label? t) ∧
      (∀ p ∈ a.net.placeIds, ∀ t ∈ a.net.transitionIds,
        ∀ k ∈ [ArcKind.input, .output, .reset, .inhibitor],
          (Arc.mk (f p) (g t) k ∈ b.net.arcs ↔ Arc.mk p t k ∈ a.net.arcs)) ∧
      (∀ p ∈ a.net.placeIds, b.initial.tokens (f p) = a.initial.tokens p) ∧
      ∀ p ∈ a.net.placeIds, b.final.tokens (f p) = a.final.tokens p := by
  have hkind : ∀ k : ArcKind, k ∈ [ArcKind.input, .output, .reset, .inhibitor] := fun k => by
    cases k <;> decide
  rw [← bijOn_iff_perm (Net.nodup_placeIds _) (Net.nodup_placeIds _),
    ← bijOn_iff_perm (Net.nodup_transitionIds _) (Net.nodup_transitionIds _)]
  simp only [Net.mem_placeIds, Net.mem_transitionIds, hkind, forall_const]
  constructor
  · rintro ⟨hplaces, htransitions, hlabel, harcs, hinitial, hfinal⟩
    exact ⟨hplaces, htransitions, hlabel, fun p hp t ht k => harcs p t k hp ht, hinitial, hfinal⟩
  · rintro ⟨hplaces, htransitions, hlabel, harcs, hinitial, hfinal⟩
    exact ⟨hplaces, htransitions, hlabel, fun p t k hp ht => harcs p hp t ht k, hinitial, hfinal⟩

instance (f : PlaceId → PlaceId) (g : TransitionId → TransitionId) (a b : AcceptingNet) :
    Decidable (Isomorphism f g a b) :=
  decidable_of_iff _ isomorphism_iff.symm

/-- Isomorphic nets have equally many places. -/
theorem Isomorphic.length_placeIds {a b : AcceptingNet} (h : Isomorphic a b) :
    a.net.placeIds.length = b.net.placeIds.length := by
  obtain ⟨f, g, hfg⟩ := h
  rw [← (isomorphism_iff.1 hfg).1.length_eq, List.length_map]

end ProcessNet.AcceptingNet
