/-
What every edit of a construction keeps: the parts of the net agree, and the markings are canonical and
can be stored. A converted graph is therefore a well-formed accepting net.
-/
import ProcessNet.Proofs.Conversion.Program
import ProcessNet.Proofs.Reduction.Edit
import ProcessNet.Proofs.Marking.Storable

namespace ProcessNet

namespace Construction

open Identifier

/-- The parts of the net agree, and the markings are canonical; the initial one can be stored. It lies on
places that are there, as those of flows are. -/
structure Valid (c : Construction) : Prop where
  consistent : c.net.Consistent
  initial : c.initial.Canonical
  storable : c.initial.Storable
  marked : ∀ p, 0 < c.initial.tokens p → index p < c.net.places.size
  final : c.final.Canonical
  flows : ∀ f p, c.flowPlaces.lookup f = some p → index p < c.net.places.size
  sink : ∀ p, c.rootSink = some p → index p < c.net.places.size

variable {F : Fence} {c c' : Construction}

theorem valid_start (g : ProcessGraph) : (start g).Valid where
  consistent :=
    { mirrored := Incidence.aligned_empty.mirrored
      livePlace := fun _ ha => nomatch ha
      liveTransition := fun _ ha => nomatch ha
      placeNames := ⟨(fun _ _ ha => nomatch ha), rfl⟩
      transitionNames := ⟨(fun _ _ ha => nomatch ha), rfl⟩ }
  initial := Marking.canonical_empty
  storable := Marking.storable_empty
  marked := fun _ hp => absurd hp (Nat.lt_irrefl 0)
  final := Marking.canonical_empty
  flows := fun _ _ h => nomatch h
  sink := fun _ h => nomatch h

theorem consistent_absorbed (s : JoinedSubprocess) (h : c.net.Consistent) :
    (absorbed s c).net.Consistent := by
  refine h.mapNodes (fun x => ?_) fun x => ?_
  · split <;> rfl
  · split <;> rfl

/-- A fence that forbids nothing. -/
def unfenced : Fence := ⟨fun _ => False, True, True⟩

theorem Edit.unfenced (h : Edit F c c') : Edit unfenced c c' := by
  cases h with
  | place hp => exact .place hp
  | transition ht => exact .transition ht
  | arc _ ha => exact .arc (fun _ => id) ha
  | drop _ hp => exact .drop id hp
  | mark _ hlt hm => exact .mark id hlt hm
  | finish p => exact .finish p
  | register f _ hp hsink =>
    exact .register f trivial ⟨id, hp.2⟩ fun q hq => ⟨id, (hsink q hq).2⟩
  | absorb s => exact .absorb s trivial

theorem Valid.fenced (hc : c.Valid) (hF : ∀ p, ¬ F.frozen p) : Fenced F c :=
  ⟨fun p hp => absurd hp (hF p), fun f p hp => ⟨hF p, hc.flows f p hp⟩,
    fun p hp => ⟨hF p, hc.sink p hp⟩⟩

theorem Valid.unfenced (hc : c.Valid) : Fenced unfenced c := hc.fenced fun _ => id

theorem Edit.valid (h : Edit F c c') (hc : c.Valid) : c'.Valid := by
  have hold : ∀ p, 0 < c.initial.tokens p → index p < c'.net.places.size := fun p hp =>
    Nat.lt_of_lt_of_le (hc.marked p hp) h.places_size
  have hfenced := h.unfenced.fenced hc.unfenced
  have hflows := fun f p hp => (hfenced.flows f p hp).2
  have hsink := fun p hp => (hfenced.sink p hp).2
  cases h with
  | place hp =>
    exact ⟨(hc.consistent.addPlace hp).consistent, hc.initial, hc.storable, hold, hc.final, hflows, hsink⟩
  | transition ht =>
    exact ⟨(hc.consistent.addTransition ht).consistent, hc.initial, hc.storable, hold, hc.final, hflows,
      hsink⟩
  | arc _ ha =>
    exact ⟨(hc.consistent.addArc ha).consistent, hc.initial, hc.storable, hold, hc.final, hflows, hsink⟩
  | drop _ hp =>
    exact ⟨(hc.consistent.removePlace hp).consistent, hc.initial, hc.storable, hold, hc.final, hflows,
      hsink⟩
  | mark _ hlt hm =>
    refine { hc with
      initial := hc.initial.add hm, storable := hc.storable.add hm, marked := fun q hq => ?_ }
    rw [Marking.tokens_add hm] at hq
    split at hq
    · rename_i he
      rw [he]
      exact hlt
    · exact hold q hq
  | finish p => exact { hc with final := hc.final.set p 1 }
  | register => exact ⟨hc.consistent, hc.initial, hc.storable, hc.marked, hc.final, hflows, hsink⟩
  | absorb s =>
    exact ⟨consistent_absorbed s hc.consistent, hc.initial, hc.storable, hold, hc.final, hflows, hsink⟩

theorem Edits.valid (h : Edits F c c') (hc : c.Valid) : c'.Valid := by
  induction h with
  | refl => exact hc
  | tail _ he ih => exact he.valid ih

theorem valid_of_construct {g : ProcessGraph} {showEvents : Bool}
    (h : construct g showEvents (start g) = .ok () c) : c.Valid := by
  have hmakes := makes_construct g (F := unfenced) trivial trivial showEvents (start g)
    (valid_start g).unfenced
  rw [h] at hmakes
  exact hmakes.1.valid (valid_start g)

end Construction

namespace ProcessGraph

/-- The steps of a conversion that succeeds. -/
theorem toAcceptingNet_eq_ok {g : ProcessGraph} {showEvents : Bool} {a : AcceptingNet}
    (h : g.toAcceptingNet showEvents = .ok a) :
    g.firstUnsupported? = none ∧ ∃ normal c, g.normalize = .ok normal ∧
      Construction.construct normal showEvents (Construction.start normal) = .ok () c ∧
        a = c.toAccepting := by
  unfold toAcceptingNet at h
  cases hfirst : g.firstUnsupported? with
  | some n => rw [hfirst] at h; cases h
  | none =>
    rw [hfirst] at h
    cases hnormal : g.normalize with
    | error e => rw [hnormal] at h; cases h
    | ok normal =>
      rw [hnormal] at h
      refine ⟨rfl, normal, ?_⟩
      simp only [construct, Except.mapError, bind, Except.bind] at h
      cases hc : Construction.construct normal showEvents (Construction.start normal) with
      | error e c => rw [hc] at h; cases h
      | ok u c =>
        rw [hc] at h
        refine ⟨c, rfl, rfl, ?_⟩
        dsimp only at h
        split at h
        · cases h
        · exact (Except.ok.inj h).symm

/-- A conversion succeeds where the construction does: the final check finds nothing. -/
theorem toAcceptingNet_of_construct {g normal : ProcessGraph} {showEvents : Bool} {c : Construction}
    (hfirst : g.firstUnsupported? = none) (hnormal : g.normalize = .ok normal)
    (hc : Construction.construct normal showEvents (Construction.start normal) = .ok () c) :
    g.toAcceptingNet showEvents = .ok c.toAccepting := by
  have hconsistent := (Construction.valid_of_construct hc).consistent
  have hcheck := (Net.consistent_iff_checkConsistency hconsistent.mirrored.nodup).1 hconsistent
  simp only [toAcceptingNet, hfirst, hnormal, construct, hc, Except.mapError, bind, Except.bind]
  rw [show (Construction.toAccepting c).net.checkConsistency = .ok () from hcheck]
  rfl

/-- A converted graph is a well-formed accepting net whose initial marking can be stored. -/
theorem wellFormed_of_toAcceptingNet {g : ProcessGraph} {showEvents : Bool} {a : AcceptingNet}
    (h : g.toAcceptingNet showEvents = .ok a) : a.WellFormed ∧ a.initial.Storable := by
  obtain ⟨_, normal, c, _, hc, rfl⟩ := toAcceptingNet_eq_ok h
  have hvalid := Construction.valid_of_construct hc
  exact ⟨⟨hvalid.consistent, hvalid.initial, hvalid.final⟩, hvalid.storable⟩

end ProcessGraph

end ProcessNet
