/-
The history of a net that was made from nothing by calls in a row. However places, transitions and arcs
were added and removed, the parts of the net agree, its rows list the arcs in the order in which they
came, and its names lead to the live nodes. An identifier is handed out once: its slot holds the node it
was handed out for until that node is removed, and is empty ever after.
-/
import ProcessNet.Proofs.Net.Editing
import ProcessNet.Proofs.Net.Naming

namespace ProcessNet

open Identifier

/-! ## Rows in order -/

namespace Incidence

variable {inc inc' : Incidence}

theorem Aligned.pushPlace (h : inc.Aligned) : inc.pushPlace.1.Aligned := by
  refine ⟨h.nodup, fun p => ?_, h.transition⟩
  rw [placeArcs, Incidence.pushPlace, Net.get?_push_nil]
  exact h.place p

theorem Aligned.pushTransition (h : inc.Aligned) : inc.pushTransition.1.Aligned := by
  refine ⟨h.nodup, h.place, fun t => ?_⟩
  rw [transitionArcs, Incidence.pushTransition, Net.get?_push_nil]
  exact h.transition t

theorem Aligned.eraseAll {l : List Arc} (h : inc.Aligned) (hok : inc.eraseAll l = .ok inc') :
    inc'.Aligned := by
  induction l generalizing inc with
  | nil =>
    cases hok
    exact h
  | cons a l ih =>
    rw [Incidence.eraseAll, List.foldlM_cons] at hok
    cases he : inc.erase a with
    | error f => rw [he] at hok; cases hok
    | ok r =>
      rw [he] at hok
      exact ih (h.erase he) hok

theorem Aligned.detachPlace {p : PlaceId} {l : List Arc} (h : inc.Aligned)
    (hok : inc.detachPlace p = .ok (inc', l)) : inc'.Aligned := by
  obtain ⟨inc₁, hall, he⟩ := Net.map_eq_ok hok
  cases he
  exact h.eraseAll hall

theorem Aligned.detachTransition {t : TransitionId} {l : List Arc} (h : inc.Aligned)
    (hok : inc.detachTransition t = .ok (inc', l)) : inc'.Aligned := by
  obtain ⟨inc₁, hall, he⟩ := Net.map_eq_ok hok
  cases he
  exact h.eraseAll hall

end Incidence

namespace Net

variable {n n' : Net} {e : Edit}

theorem aligned_edit (h : n.incidence.Aligned) (hok : n.edit e = .ok n') : n'.incidence.Aligned := by
  cases e with
  | addPlace x =>
    obtain ⟨⟨_, p⟩, hcall, rfl⟩ := map_eq_ok hok
    obtain ⟨_, _, rfl⟩ := addPlace_eq_ok hcall
    exact h.pushPlace
  | addTransition x =>
    obtain ⟨⟨_, t⟩, hcall, rfl⟩ := map_eq_ok hok
    obtain ⟨_, _, rfl⟩ := addTransition_eq_ok hcall
    exact h.pushTransition
  | addArc a =>
    obtain ⟨⟨_, new⟩, hcall, rfl⟩ := map_eq_ok hok
    obtain ⟨_, _, inc, hinc, rfl⟩ := addArc_eq_ok hcall
    exact h.insert hinc
  | removeArc a =>
    obtain ⟨⟨_, found⟩, hcall, rfl⟩ := map_eq_ok hok
    obtain ⟨inc, hinc, rfl⟩ := removeArc_eq_ok hcall
    exact h.erase hinc
  | removePlace p =>
    obtain ⟨⟨_, x⟩, hcall, rfl⟩ := map_eq_ok hok
    obtain ⟨_, inc, l, hinc, rfl⟩ := removePlace_eq_ok hcall
    exact h.detachPlace hinc
  | removeTransition t =>
    obtain ⟨⟨_, x⟩, hcall, rfl⟩ := map_eq_ok hok
    obtain ⟨_, inc, l, hinc, rfl⟩ := removeTransition_eq_ok hcall
    exact h.detachTransition hinc

theorem aligned_editedBy (h : n.incidence.Aligned) (es : List Edit) :
    (n.editedBy es).incidence.Aligned := by
  induction es generalizing n with
  | nil => exact h
  | cons e es ih =>
    refine ih ?_
    unfold edited
    split
    · rename_i hok
      exact aligned_edit h hok
    · exact h

/-- All parts of the net agree, and no call meets a fault: each row lists the arcs of its node in the
order of the arcs, and the names lead to the live nodes that bear them and nowhere else. -/
structure Coherent (n : Net) : Prop extends Safe n where
  placeArcs : ∀ p,
    n.placeArcs p = (n.arcs.filter (·.place = p)).map fun a => (a.transition, a.kind)
  transitionArcs : ∀ t,
    n.transitionArcs t = (n.arcs.filter (·.transition = t)).map fun a => (a.place, a.kind)
  placeName : ∀ name p,
    n.placeNames.find? name = some p ↔ ∃ x, n.place? p = some x ∧ x.name = name
  transitionName : ∀ name t,
    n.transitionNames.find? name = some t ↔ ∃ x, n.transition? t = some x ∧ x.name = name

theorem Consistent.coherent (hn : n.Consistent) (hfit : n.RowsFit) (h : n.incidence.Aligned) :
    n.Coherent where
  toSafe := hn.safe hfit
  placeArcs := h.place
  transitionArcs := h.transition
  placeName name p := by
    simp only [place?_eq_some_iff]
    exact hn.placeNames.find?_iff
  transitionName name t := by
    simp only [transition?_eq_some_iff]
    exact hn.transitionNames.find?_iff

/-! ## Calls without effect -/

/-- What a call answers: an error, or whether it has changed anything. Only the calls that add or remove
an arc can succeed and say no. -/
def answer (n : Net) (e : Edit) : Except NetError Bool :=
  match e with
  | .addArc a => (n.addArc a).map (·.2)
  | .removeArc a => (n.removeArc a).map (·.2)
  | .addPlace _ | .addTransition _ | .removePlace _ | .removeTransition _ =>
    (n.edit e).map fun _ => true

theorem edited_of_ok (h : n.edit e = .ok n') : n.edited e = n' := by
  rw [edited, h]

theorem edited_of_error {err : NetError} (h : n.edit e = .error err) : n.edited e = n := by
  rw [edited, h]

/-- A call that answers an error or `false` leaves the net as it was. -/
theorem edited_of_answer (h : n.answer e ≠ .ok true) : n.edited e = n := by
  cases hok : n.edit e with
  | error err => exact edited_of_error hok
  | ok n' =>
    rw [edited_of_ok hok]
    cases e with
    | addArc a =>
      obtain ⟨⟨n', new⟩, hcall, rfl⟩ := map_eq_ok hok
      cases new with
      | true => exact absurd (by rw [answer, hcall]; rfl) h
      | false =>
        obtain ⟨_, _, inc, hinc, rfl⟩ := addArc_eq_ok hcall
        rw [(Incidence.insert_eq_ok_false_iff.1 hinc).2]
    | removeArc a =>
      obtain ⟨⟨n', found⟩, hcall, rfl⟩ := map_eq_ok hok
      cases found with
      | true => exact absurd (by rw [answer, hcall]; rfl) h
      | false =>
        obtain ⟨inc, hinc, rfl⟩ := removeArc_eq_ok hcall
        rw [(Incidence.erase_eq_ok_false_iff.1 hinc).2]
    | addPlace | addTransition | removePlace | removeTransition =>
      exact absurd (by rw [answer, hok]; rfl) h

/-! ## Slots -/

section Slots

variable {ι α : Type} [Identifier ι]

/-- What is in a slot stays there until the slot is emptied for good. -/
def Lasts (slots slots' : Arena ι (Option α)) : Prop :=
  ∀ i slot, slots.get? i = some slot →
    slots'.get? i = some slot ∨ slots'.get? i = some none

theorem Lasts.refl (slots : Arena ι (Option α)) : Lasts slots slots := fun _ _ h => .inl h

theorem Lasts.trans {slots slots' slots'' : Arena ι (Option α)} (h : Lasts slots slots')
    (k : Lasts slots' slots'') : Lasts slots slots'' := by
  intro i slot hi
  rcases h i slot hi with hi' | hi'
  · exact k i slot hi'
  · rcases k i none hi' with hi'' | hi'' <;> exact .inr hi''

theorem lasts_push {slots : Arena ι (Option α)} {slot : Option α} :
    Lasts slots (slots.push slot) := by
  intro i x hi
  refine .inl ((Arena.get?_push_of_ne ?_).trans hi)
  rintro rfl
  rw [Arena.get?_next] at hi
  cases hi

theorem lasts_set_none [DecidableEq ι] {slots : Arena ι (Option α)} {j : ι} :
    Lasts slots (slots.set j none) := by
  intro i x hi
  rw [Arena.get?_set, hi]
  split
  · exact .inr rfl
  · exact .inl rfl

/-- What the calls of a history have added, with the identifiers that they answered. -/
def madeBy (made? : Net → Edit → Option (ι × α)) (n : Net) : List Edit → List (ι × α)
  | [] => []
  | e :: es => (made? n e).toList ++ madeBy made? (n.edited e) es

/-- The answers of the calls tell which slots are taken: a slot that was free before then holds what
was added. All other slots last. -/
structure Keeps (slots : Net → Arena ι (Option α)) (made? : Net → Edit → Option (ι × α)) : Prop where
  lasts : ∀ n e, Lasts (slots n) (slots (n.edited e))
  taken : ∀ n e i a, made? n e = some (i, a) →
    (slots n).get? i = none ∧ (slots (n.edited e)).get? i = some (some a)

variable {slots : Net → Arena ι (Option α)} {made? : Net → Edit → Option (ι × α)} {i : ι} {a : α}

namespace Keeps

theorem lasts_editedBy (h : Keeps slots made?) (n : Net) (es : List Edit) :
    Lasts (slots n) (slots (n.editedBy es)) := by
  induction es generalizing n with
  | nil => exact .refl _
  | cons e es ih => exact (h.lasts n e).trans (ih (n.edited e))

/-- What is handed out was free at the start. -/
theorem free_of_mem (h : Keeps slots made?) {es : List Edit} (hmem : (i, a) ∈ madeBy made? n es) :
    (slots n).get? i = none := by
  induction es generalizing n with
  | nil => cases hmem
  | cons e es ih =>
    rcases List.mem_append.1 hmem with hmem | hmem
    · exact (h.taken n e i a (Option.mem_toList.1 hmem)).1
    · have hfree := ih hmem
      cases hslot : (slots n).get? i with
      | none => rfl
      | some slot =>
        rcases h.lasts n e i slot hslot with hlast | hlast <;>
        · rw [hfree] at hlast
          cases hlast

/-- At the end of a history a slot holds what it was handed out for, or nothing. -/
theorem slot_of_mem (h : Keeps slots made?) {es : List Edit} (hmem : (i, a) ∈ madeBy made? n es) :
    (slots (n.editedBy es)).get? i = some (some a) ∨
      (slots (n.editedBy es)).get? i = some none := by
  induction es generalizing n with
  | nil => cases hmem
  | cons e es ih =>
    rcases List.mem_append.1 hmem with hmem | hmem
    · exact h.lasts_editedBy (n.edited e) es i _ (h.taken n e i a (Option.mem_toList.1 hmem)).2
    · exact ih hmem

/-- No identifier is handed out twice. -/
theorem nodup_madeBy (h : Keeps slots made?) (n : Net) (es : List Edit) :
    ((madeBy made? n es).map (·.1)).Nodup := by
  induction es generalizing n with
  | nil => exact .nil
  | cons e es ih =>
    rw [madeBy]
    cases hmade : made? n e with
    | none => exact ih (n.edited e)
    | some r =>
      obtain ⟨i, a⟩ := r
      refine List.nodup_cons.2 ⟨fun hagain => ?_, ih (n.edited e)⟩
      obtain ⟨⟨j, b⟩, hagain, hj⟩ := List.mem_map.1 hagain
      cases hj
      have htaken := (h.taken n e i a hmade).2
      rw [h.free_of_mem hagain] at htaken
      cases htaken

end Keeps

end Slots

/-! ## Places and transitions -/

/-- The place that a call adds. -/
def placeMade? (n : Net) : Edit → Option (PlaceId × Place)
  | .addPlace x => (n.addPlace x).toOption.map fun r => (r.2, x)
  | _ => none

/-- The transition that a call adds. -/
def transitionMade? (n : Net) : Edit → Option (TransitionId × Transition)
  | .addTransition x => (n.addTransition x).toOption.map fun r => (r.2, x)
  | _ => none

/-- The places that the calls add one after the other, with the identifiers that they are given. -/
def placesMade (n : Net) (es : List Edit) : List (PlaceId × Place) := madeBy placeMade? n es

/-- The transitions that the calls add one after the other, with the identifiers that they are given. -/
def transitionsMade (n : Net) (es : List Edit) : List (TransitionId × Transition) :=
  madeBy transitionMade? n es

theorem lasts_edited (n : Net) (e : Edit) :
    Lasts n.places (n.edited e).places ∧ Lasts n.transitions (n.edited e).transitions := by
  cases hok : n.edit e with
  | error err => exact (edited_of_error hok).symm ▸ ⟨.refl _, .refl _⟩
  | ok n' =>
    rw [edited_of_ok hok]
    cases e with
    | addPlace x =>
      obtain ⟨⟨_, p⟩, hcall, rfl⟩ := map_eq_ok hok
      obtain ⟨_, _, rfl⟩ := addPlace_eq_ok hcall
      exact ⟨lasts_push, .refl _⟩
    | addTransition x =>
      obtain ⟨⟨_, t⟩, hcall, rfl⟩ := map_eq_ok hok
      obtain ⟨_, _, rfl⟩ := addTransition_eq_ok hcall
      exact ⟨.refl _, lasts_push⟩
    | addArc a =>
      obtain ⟨⟨_, new⟩, hcall, rfl⟩ := map_eq_ok hok
      obtain ⟨_, _, inc, _, rfl⟩ := addArc_eq_ok hcall
      exact ⟨.refl _, .refl _⟩
    | removeArc a =>
      obtain ⟨⟨_, found⟩, hcall, rfl⟩ := map_eq_ok hok
      obtain ⟨inc, _, rfl⟩ := removeArc_eq_ok hcall
      exact ⟨.refl _, .refl _⟩
    | removePlace p =>
      obtain ⟨⟨_, x⟩, hcall, rfl⟩ := map_eq_ok hok
      obtain ⟨_, inc, l, _, rfl⟩ := removePlace_eq_ok hcall
      exact ⟨lasts_set_none, .refl _⟩
    | removeTransition t =>
      obtain ⟨⟨_, x⟩, hcall, rfl⟩ := map_eq_ok hok
      obtain ⟨_, inc, l, _, rfl⟩ := removeTransition_eq_ok hcall
      exact ⟨.refl _, lasts_set_none⟩

theorem keeps_places : Keeps places placeMade? where
  lasts n e := (lasts_edited n e).1
  taken n e p x hmade := by
    cases e with
    | addPlace y =>
      cases hcall : n.addPlace y with
      | error err =>
        rw [placeMade?, hcall] at hmade
        cases hmade
      | ok r =>
        rw [placeMade?, hcall] at hmade
        cases hmade
        obtain ⟨n', q⟩ := r
        have hedit : n.edit (.addPlace x) = .ok n' := by
          rw [edit, hcall]
          rfl
        rw [edited_of_ok hedit]
        obtain ⟨_, rfl, rfl⟩ := addPlace_eq_ok hcall
        exact ⟨Arena.get?_next, Arena.get?_push_next⟩
    | _ => cases hmade

theorem keeps_transitions : Keeps transitions transitionMade? where
  lasts n e := (lasts_edited n e).2
  taken n e t x hmade := by
    cases e with
    | addTransition y =>
      cases hcall : n.addTransition y with
      | error err =>
        rw [transitionMade?, hcall] at hmade
        cases hmade
      | ok r =>
        rw [transitionMade?, hcall] at hmade
        cases hmade
        obtain ⟨n', q⟩ := r
        have hedit : n.edit (.addTransition x) = .ok n' := by
          rw [edit, hcall]
          rfl
        rw [edited_of_ok hedit]
        obtain ⟨_, rfl, rfl⟩ := addTransition_eq_ok hcall
        exact ⟨Arena.get?_next, Arena.get?_push_next⟩
    | _ => cases hmade

/-! ## Histories -/

/-- What is true of the net `n` that the calls `es` have made from nothing. Every identifier that was
handed out still tells the node it was handed out for, or no node now and later. -/
structure History (es : List Edit) (n : Net) : Prop extends Coherent n where
  unchanged : ∀ e, n.answer e ≠ .ok true → n.edited e = n
  placesOnce : ((placesMade {} es).map (·.1)).Nodup
  placesLast : ∀ p x, (p, x) ∈ placesMade {} es →
    n.place? p = some x ∨ ∀ later, (n.editedBy later).place? p = none
  transitionsOnce : ((transitionsMade {} es).map (·.1)).Nodup
  transitionsLast : ∀ t x, (t, x) ∈ transitionsMade {} es →
    n.transition? t = some x ∨ ∀ later, (n.editedBy later).transition? t = none

theorem consistent_empty : ({} : Net).Consistent :=
  (consistent_iff_checkConsistency (by decide)).2 (by decide)

/-- The parts of a net that was made from nothing agree, whatever calls `editedBy` has made. -/
theorem history_editedBy (es : List Edit) : History es (({} : Net).editedBy es) := by
  obtain ⟨hcons, hfit⟩ := consistent_empty.editedBy (by decide) es
  refine ⟨hcons.coherent hfit (aligned_editedBy Incidence.aligned_empty es),
    fun e => edited_of_answer, keeps_places.nodup_madeBy {} es, fun p x hmem => ?_,
    keeps_transitions.nodup_madeBy {} es, fun t x hmem => ?_⟩
  · refine (keeps_places.slot_of_mem hmem).imp place?_eq_some_iff.2 fun hgone later => ?_
    rcases keeps_places.lasts_editedBy _ later p _ hgone with hlast | hlast <;>
      rw [place?, hlast, Option.join_some]
  · refine (keeps_transitions.slot_of_mem hmem).imp transition?_eq_some_iff.2 fun hgone later => ?_
    rcases keeps_transitions.lasts_editedBy _ later t _ hgone with hlast | hlast <;>
      rw [transition?, hlast, Option.join_some]

/-- A name is free again when its place is removed, an identifier is not. -/
example : placesMade {} [.addPlace ⟨"p", .flow, ""⟩, .removePlace ⟨0⟩, .addPlace ⟨"p", .flow, ""⟩] =
    [(⟨0⟩, ⟨"p", .flow, ""⟩), (⟨1⟩, ⟨"p", .flow, ""⟩)] := by
  decide

end Net

end ProcessNet
