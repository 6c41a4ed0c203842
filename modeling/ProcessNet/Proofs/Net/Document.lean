/-
Accepting nets are read back as they were written, in every format: each part of a net is conveyed, given
that its numbers take no more bits than a document gives them and that its tables list nothing twice.
-/
import Mathlib.Data.List.Induction
import ProcessNet.Net.Document
import ProcessNet.Proofs.Format.Document
import ProcessNet.Proofs.Net.Naming

namespace ProcessNet

open DocumentReader DocumentWriter Identifier

variable {ω ρ : Type} [DocumentWriter ω] [DocumentReader ρ] (F : Format ω ρ)

theorem conveys_id {ι : Type} [Identifier ι] {i : ι} (h : fits bits (index i)) :
    F.Conveys (ofId i) toId? i := by
  have := (F.conveys_nat (by decide) h).map (ofIndex (ι := ι))
  rwa [ofIndex_index] at this

/-! ## Nodes -/

theorem PlaceRole.isWord_name (r : PlaceRole) : isWord r.name := by
  cases r <;> (simp only [name]; decide)

theorem PlaceRole.conveys (r : PlaceRole) : F.Conveys r.encode PlaceRole.decode? r := by
  cases r with
  | source | sink | flow | boundaryGate =>
    refine ⟨F.fit_bare _ (isWord_name _), fun v hv => ?_⟩
    rw [decode?, F.reads_bare _ v hv]
    simp [plain, name]
  | error e | cancel e | message e | terminate e =>
    refine ⟨F.fit_holding _ _ (isWord_name _) (F.fit_text e), fun v hv => ?_⟩
    obtain ⟨v', hv', hread⟩ := F.reads_holding _ _ v hv
    rw [decode?, hv']
    simp [plain, name, ofEvent?, F.reads_text e v' hread]

theorem Place.conveys (p : Place) : F.Conveys p.encode Place.decode? p := by
  have hname := F.conveys_text p.name
  have hrole := p.role.conveys F
  have hprocess := F.conveys_text p.process
  refine F.conveys_fields rfl (by decide) (by decide) ⟨hname.1, hrole.1, hprocess.1⟩ fun f hf => ?_
  simp [hf.required (k := "name") (by simp) hname, hf.required (k := "role") (by simp) hrole,
    hf.required (k := "process") (by simp) hprocess]

theorem Transition.conveys (t : Transition) : F.Conveys t.encode Transition.decode? t := by
  have hname := F.conveys_text t.name
  have hlabel : ∀ l ∈ t.label, F.Conveys (ofText l) toText? l := fun l _ => F.conveys_text l
  have hprocess := F.conveys_text t.process
  have hencode : t.encode = ofFields [("name", ofText t.name), ("label", Format.offer ofText t.label),
      ("process", (ofText t.process : ω))] := by
    rw [encode]
    cases t.label <;> rfl
  rw [hencode]
  refine F.conveys_fields rfl (by decide) (by decide)
    ⟨hname.1, Format.fit_offer fun l hl => (hlabel l hl).1, hprocess.1⟩ fun f hf => ?_
  simp [hf.required (k := "name") (by simp) hname,
    hf.optional (k := "label") (by simp) hlabel fun l _ => F.text_ne_absent l,
    hf.required (k := "process") (by simp) hprocess]

/-! ## Arcs -/

theorem ArcKind.conveys (k : ArcKind) : F.Conveys k.encode ArcKind.decode? k := by
  cases k <;> exact F.conveys_bare (by decide) (by decide)

/-- The numbers of the two ends can be written. -/
def Arc.Fits (a : Arc) : Prop := fits bits (index a.place) ∧ fits bits (index a.transition)

theorem Arc.conveys {a : Arc} (h : a.Fits) : F.Conveys a.encode Arc.decode? a := by
  have hplace := conveys_id F h.1
  have htransition := conveys_id F h.2
  have hkind := a.kind.conveys F
  refine F.conveys_fields rfl (by decide) (by decide) ⟨hplace.1, htransition.1, hkind.1⟩
    fun f hf => ?_
  simp [hf.required (k := "place") (by simp) hplace,
    hf.required (k := "transition") (by simp) htransition,
    hf.required (k := "kind") (by simp) hkind]

namespace Incidence

theorem conveys_row {ι : Type} [Identifier ι] {row : List (ι × ArcKind)}
    (h : ∀ e ∈ row, fits bits (index e.1)) : F.Conveys (encodeRow row) decodeRow? row := by
  refine F.conveys_list fun e he => ?_
  have hid := conveys_id F (h e he)
  have hkind := e.2.conveys F
  refine ⟨F.fit_pair _ _ hid.1 hkind.1, fun r hr => ?_⟩
  obtain ⟨a, b, hab, ha, hb⟩ := F.reads_pair _ _ r hr
  simp [hab, hid.2 a ha, hkind.2 b hb]

theorem eraseDups_of_nodup {α : Type} [BEq α] [LawfulBEq α] {l : List α} (h : l.Nodup) :
    l.eraseDups = l := by
  induction l with
  | nil => rfl
  | cons a l ih =>
    obtain ⟨ha, hl⟩ := List.nodup_cons.1 h
    have hfilter : l.filter (fun b => !b == a) = l :=
      List.filter_eq_self.2 fun b hb => by simpa using fun he : b = a => ha (he ▸ hb)
    rw [List.eraseDups_cons, hfilter, ih hl]

theorem conveys {inc : Incidence} (hnodup : inc.arcs.Nodup) (harcs : ∀ a ∈ inc.arcs, a.Fits)
    (hplaces : ∀ row ∈ inc.byPlace.items, ∀ e ∈ row, fits bits (index e.1))
    (htransitions : ∀ row ∈ inc.byTransition.items, ∀ e ∈ row, fits bits (index e.1)) :
    F.Conveys inc.encode Incidence.decode? inc := by
  have harcs := F.conveys_list fun a ha => Arc.conveys F (harcs a ha)
  have hplaces := F.conveys_list fun row hrow => conveys_row F (hplaces row hrow)
  have htransitions := F.conveys_list fun row hrow => conveys_row F (htransitions row hrow)
  refine F.conveys_fields rfl (by decide) (by decide) ⟨harcs.1, hplaces.1, htransitions.1⟩
    fun f hf => ?_
  simp [hf.required (k := "arcs") (by simp) harcs, hf.required (k := "by_place") (by simp) hplaces,
    hf.required (k := "by_transition") (by simp) htransitions, eraseDups_of_nodup hnodup]

end Incidence

/-! ## Tables -/

namespace NameIndex

variable {ι : Type} {l : List (String × ι)}

theorem insertEntry_of_notMem {name : String} {i : ι} (h : name ∉ l.map (·.1)) :
    insertEntry name i l = l ++ [(name, i)] := by
  induction l with
  | nil => rfl
  | cons e l ih =>
    rw [List.map_cons, List.mem_cons, not_or] at h
    rw [insertEntry, if_neg (Ne.symm h.1), ih h.2, List.cons_append]

/-- `ofList` makes an index that lists the same of a list that has no name twice. -/
theorem ofList_of_nodup (h : (l.map (·.1)).Nodup) : ofList l = ⟨l⟩ := by
  induction l using List.reverseRecOn with
  | nil => rfl
  | append_singleton l e ih =>
    rw [List.map_append, List.nodup_append] at h
    have hnew : e.1 ∉ l.map (·.1) := fun he => h.2.2 _ he e.1 (by simp) rfl
    have hl := ih h.1
    rw [ofList] at hl ⊢
    rw [List.foldl_append, hl, List.foldl_cons, List.foldl_nil]
    exact congrArg NameIndex.mk (insertEntry_of_notMem hnew)

theorem conveys [Identifier ι] {x : NameIndex ι} (hnodup : (x.entries.map (·.1)).Nodup)
    (h : ∀ e ∈ x.entries, fits bits (index e.2)) : F.Conveys x.encode NameIndex.decode? x := by
  have hentries := F.conveys_named (l := x.entries) fun e he => conveys_id F (h e he)
  refine ⟨hentries.1, fun r hr => ?_⟩
  obtain ⟨l, hl, hmapM⟩ := Option.bind_eq_some_iff.1 (hentries.2 r hr)
  simp [decode?, hl, hmapM, ofList_of_nodup hnodup]

end NameIndex

namespace Marking

/-- The entries are in order and their numbers can be written. -/
structure Fits (m : Marking) : Prop where
  sorted : m.entries.Pairwise fun a b => a.1.number < b.1.number
  places : ∀ e ∈ m.entries, fits bits e.1.number
  counts : ∀ e ∈ m.entries, fits countBits e.2

theorem insertEntry_of_lt {p : PlaceId} {n : Nat} {es : List (PlaceId × Nat)}
    (h : ∀ e ∈ es, e.1.number < p.number) : insertEntry p n es = es ++ [(p, n)] := by
  induction es with
  | nil => rfl
  | cons e es ih =>
    obtain ⟨he, hes⟩ := List.forall_mem_cons.1 h
    rw [insertEntry, if_neg (by omega), if_neg (by omega), ih hes, List.cons_append]

/-- The marking of a list in order has the same entries. -/
theorem foldl_store_of_sorted {es : List (PlaceId × Nat)}
    (h : es.Pairwise fun a b => a.1.number < b.1.number) :
    es.foldl (fun m e => m.store e.1 e.2) (∅ : Marking) = ⟨es⟩ := by
  induction es using List.reverseRecOn with
  | nil => rfl
  | append_singleton es e ih =>
    obtain ⟨hes, -, hlt⟩ := List.pairwise_append.1 h
    rw [List.foldl_append, ih hes, List.foldl_cons, List.foldl_nil, store,
      insertEntry_of_lt fun d hd => hlt d hd e (List.mem_singleton_self e)]

theorem conveys {m : Marking} (h : m.Fits) : F.Conveys m.encode Marking.decode? m := by
  have hentries := F.conveys_numbered PlaceId.number PlaceId.mk (l := m.entries)
    (fun _ => rfl) (by decide) h.places fun e he => F.conveys_nat (by decide) (h.counts e he)
  refine ⟨hentries.1, fun r hr => ?_⟩
  obtain ⟨l, hl, hmapM⟩ := Option.bind_eq_some_iff.1 (hentries.2 r hr)
  simp [decode?, hl, hmapM, foldl_store_of_sorted h.sorted]

end Marking

/-! ## Nets -/

namespace Net

theorem conveys_slot {α : Type} {encode : α → ω} {decode : ρ → Option α} {slot : Option α}
    (h : ∀ x ∈ slot, F.Conveys (encode x) decode x) (hne : ∀ x ∈ slot, encode x ≠ absent) :
    F.Conveys (encodeSlot encode slot) (decodeSlot? decode) slot := by
  have hencode : encodeSlot encode slot = Format.offer encode slot := by cases slot <;> rfl
  rw [hencode]
  refine ⟨Format.fit_offer fun x hx => (h x hx).1, fun r hr => ?_⟩
  obtain ⟨o, ho, hmap⟩ := Format.reads_offer h hne hr
  rw [decodeSlot?, ho]
  cases o <;> cases slot <;> simp_all

/-- The numbers of the nodes of the net can be written, and no arc is listed twice. -/
structure Fits (n : Net) : Prop where
  arcs : n.arcs.Nodup
  places : n.places.size ≤ Nat.pow 2 bits
  transitions : n.transitions.size ≤ Nat.pow 2 bits

theorem fits_of_get? {ι α : Type} [Identifier ι] {slots : Arena ι α} {i : ι} {x : α}
    (hsize : slots.size ≤ Nat.pow 2 bits) (h : slots.get? i = some x) : fits bits (index i) := by
  obtain ⟨hi, _⟩ := List.getElem?_eq_some_iff.1 h
  exact decide_eq_true (Nat.lt_of_lt_of_le hi hsize)

theorem Fits.place {n : Net} (h : n.Fits) {p : PlaceId} (hp : n.hasPlace p) : fits bits (index p) := by
  obtain ⟨x, hx⟩ := hasPlace_iff.1 hp
  exact fits_of_get? h.places (place?_eq_some_iff.1 hx)

theorem Fits.transition {n : Net} (h : n.Fits) {t : TransitionId} (ht : n.hasTransition t) :
    fits bits (index t) := by
  obtain ⟨x, hx⟩ := hasTransition_iff.1 ht
  exact fits_of_get? h.transitions (transition?_eq_some_iff.1 hx)

theorem Consistent.conveys_incidence {n : Net} (hn : n.Consistent) (h : n.Fits) :
    F.Conveys n.incidence.encode Incidence.decode? n.incidence := by
  refine Incidence.conveys F h.arcs (fun a ha => ?_) (fun row hrow e he => ?_) fun row hrow e he => ?_
  · exact ⟨h.place (hn.livePlace a ha), h.transition (hn.liveTransition a ha)⟩
  · obtain ⟨i, hi⟩ := List.mem_iff_getElem?.1 hrow
    have hrow : n.incidence.placeArcs ⟨i⟩ = row := by simp [Incidence.placeArcs, Arena.get?, index, hi]
    exact h.transition (hn.liveTransition _ (hn.mirrored.mem_placeArcs.1 (hrow ▸ he)))
  · obtain ⟨i, hi⟩ := List.mem_iff_getElem?.1 hrow
    have hrow : n.incidence.transitionArcs ⟨i⟩ = row := by
      simp [Incidence.transitionArcs, Arena.get?, index, hi]
    exact h.place (hn.livePlace _ (hn.mirrored.mem_transitionArcs.1 (hrow ▸ he)))

theorem conveys_names {ι α : Type} [Identifier ι] {x : NameIndex ι} {slots : Arena ι (Option α)}
    {name : α → String} (hx : x.Indexes slots name) (hsize : slots.size ≤ Nat.pow 2 bits) :
    F.Conveys x.encode NameIndex.decode? x := by
  refine NameIndex.conveys F hx.nodup fun e he => ?_
  obtain ⟨a, ha, _⟩ := NameIndex.mem_named.1 (hx.perm.mem_iff.1 he)
  exact fits_of_get? hsize ha

theorem Consistent.conveys {n : Net} (hn : n.Consistent) (h : n.Fits) :
    F.Conveys n.encode Net.decode? n := by
  have hname := F.conveys_text n.name
  have hplaces := F.conveys_list (l := n.places.items) fun slot _ =>
    conveys_slot F (fun p (_ : p ∈ slot) => p.conveys F) fun _ _ => F.fields_ne_absent _
  have htransitions := F.conveys_list (l := n.transitions.items) fun slot _ =>
    conveys_slot F (fun t (_ : t ∈ slot) => t.conveys F) fun _ _ => F.fields_ne_absent _
  have hincidence := hn.conveys_incidence F h
  have hplaceNames := conveys_names F hn.placeNames h.places
  have htransitionNames := conveys_names F hn.transitionNames h.transitions
  refine F.conveys_fields rfl (by decide) (by decide) ⟨hname.1, hplaces.1, htransitions.1,
    hincidence.1, hplaceNames.1, htransitionNames.1⟩ fun f hf => ?_
  simp [hf.required (k := "name") (by simp) hname, hf.required (k := "places") (by simp) hplaces,
    hf.required (k := "transitions") (by simp) htransitions,
    hf.required (k := "arcs") (by simp) hincidence,
    hf.required (k := "place_names") (by simp) hplaceNames,
    hf.required (k := "transition_names") (by simp) htransitionNames]

end Net

namespace AcceptingNet

/-- What a document can hold of an accepting net. -/
structure Fits (a : AcceptingNet) : Prop where
  net : a.net.Fits
  initial : a.initial.Fits
  final : a.final.Fits

theorem conveys {a : AcceptingNet} (hn : a.net.Consistent) (h : a.Fits) :
    F.Conveys a.encode AcceptingNet.decode? a := by
  have hnet := hn.conveys F h.net
  have hinitial := Marking.conveys F h.initial
  have hfinal := Marking.conveys F h.final
  refine F.conveys_fields rfl (by decide) (by decide) ⟨hnet.1, hinitial.1, hfinal.1⟩ fun f hf => ?_
  simp [hf.required (k := "net") (by simp) hnet,
    hf.required (k := "initial_marking") (by simp) hinitial,
    hf.required (k := "final_marking") (by simp) hfinal]

end AcceptingNet

end ProcessNet
