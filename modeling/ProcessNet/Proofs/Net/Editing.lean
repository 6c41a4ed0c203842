/-
Editing nets that were handed on as texts. The check of such a net looks at arcs, names and rows with
entries, but not at how many rows there are: a net whose rows are as many as its slots can be edited
for ever, and any other net meets a fault when the next place or transition is added.
-/
import Mathlib.Data.Fintype.EquivFin
import ProcessNet.Net.Handoff
import ProcessNet.Proofs.Net.Growth

namespace ProcessNet

open Identifier

/-! ## Sequences of edits -/

namespace Net

/-- One call that edits a net. -/
inductive Edit where
  | addPlace (place : Place)
  | addTransition (transition : Transition)
  | addArc (arc : Arc)
  | removeArc (arc : Arc)
  | removePlace (place : PlaceId)
  | removeTransition (transition : TransitionId)

/-- The net that a call leaves behind where it succeeds. -/
def edit (n : Net) : Edit → Except NetError Net
  | .addPlace x => (n.addPlace x).map (·.1)
  | .addTransition x => (n.addTransition x).map (·.1)
  | .addArc a => (n.addArc a).map (·.1)
  | .removeArc a => (n.removeArc a).map (·.1)
  | .removePlace p => (n.removePlace p).map (·.1)
  | .removeTransition t => (n.removeTransition t).map (·.1)

/-- The net after a call; a call that fails leaves it as it was. -/
def edited (n : Net) (e : Edit) : Net :=
  match n.edit e with
  | .ok n' => n'
  | .error _ => n

/-- The net after calls in a row. -/
def editedBy (n : Net) (es : List Edit) : Net := es.foldl edited n

/-- The parts of the net agree, no call meets a fault, and what a call adds is found under the
identifier it answers. -/
structure Safe (n : Net) : Prop where
  checks : n.checkConsistency = .ok ()
  noFault : ∀ e f, n.edit e ≠ .error (.fault f)
  place : ∀ x n' p, n.addPlace x = .ok (n', p) → n'.place? p = some x
  transition : ∀ x n' t, n.addTransition x = .ok (n', t) → n'.transition? t = some x

/-- There are as many rows of places as slots for places, and the same for transitions. -/
def RowsFit (n : Net) : Prop :=
  n.incidence.byPlace.size = n.places.size ∧ n.incidence.byTransition.size = n.transitions.size

instance (n : Net) : Decidable n.RowsFit := inferInstanceAs (Decidable (_ ∧ _))

variable {n n' : Net}

theorem SameNodes.rowsFit (h : SameNodes n n') (hfit : n.RowsFit) : n'.RowsFit :=
  ⟨by rw [h.placeRows, h.places, hfit.1], by rw [h.transitionRows, h.transitions, hfit.2]⟩

/-! ## Nets whose rows fit -/

theorem map_ne_fault {α β : Type} {r : Except NetError α} {g : α → β} {f : Fault}
    (h : r ≠ .error (.fault f)) : r.map g ≠ .error (.fault f) := by
  cases r with
  | ok x =>
    intro he
    cases he
  | error e => exact fun he => h (congrArg Except.error (Except.error.inj he))

theorem ne_fault_of_ok {α : Type} {r : Except NetError α} {x : α} {f : Fault} (h : r = .ok x) :
    r ≠ .error (.fault f) := by
  rw [h]
  intro he
  cases he

theorem map_eq_ok {ε α β : Type} {r : Except ε α} {g : α → β} {y : β} (h : r.map g = .ok y) :
    ∃ x, r = .ok x ∧ g x = y := by
  cases r with
  | ok x => exact ⟨x, rfl, Except.ok.inj h⟩
  | error e => cases h

theorem next_eq_iff {ι α β : Type} [Identifier ι] {a : Arena ι α} {b : Arena ι β} :
    a.next = b.next ↔ a.size = b.size := by
  rw [Arena.eq_next_iff, Arena.index_next]

theorem addPlace_eq_fault_iff {x : Place} (hx : n.placeNames.contains x.name = false) :
    (∃ f, n.addPlace x = .error (.fault f)) ↔ n.incidence.byPlace.size ≠ n.places.size := by
  rw [ne_eq, ← next_eq_iff]
  simp only [Net.addPlace, hx, Incidence.pushPlace]
  by_cases h : n.incidence.byPlace.next = n.places.next <;> simp [h]

theorem addTransition_eq_fault_iff {x : Transition}
    (hx : n.transitionNames.contains x.name = false) :
    (∃ f, n.addTransition x = .error (.fault f)) ↔
      n.incidence.byTransition.size ≠ n.transitions.size := by
  rw [ne_eq, ← next_eq_iff]
  simp only [Net.addTransition, hx, Incidence.pushTransition]
  by_cases h : n.incidence.byTransition.next = n.transitions.next <;> simp [h]

theorem RowsFit.addPlace_ne_fault (h : n.RowsFit) (x : Place) (f : Fault) :
    n.addPlace x ≠ .error (.fault f) := by
  cases hx : n.placeNames.contains x.name with
  | true =>
    simp only [Net.addPlace, hx, if_true]
    intro he
    cases he
  | false => exact fun he => (addPlace_eq_fault_iff hx).1 ⟨f, he⟩ h.1

theorem RowsFit.addTransition_ne_fault (h : n.RowsFit) (x : Transition) (f : Fault) :
    n.addTransition x ≠ .error (.fault f) := by
  cases hx : n.transitionNames.contains x.name with
  | true =>
    simp only [Net.addTransition, hx, if_true]
    intro he
    cases he
  | false => exact fun he => (addTransition_eq_fault_iff hx).1 ⟨f, he⟩ h.2

theorem Consistent.addArc_ne_fault (hn : n.Consistent) (h : n.RowsFit) (a : Arc) (f : Fault) :
    n.addArc a ≠ .error (.fault f) := by
  by_cases hp : n.hasPlace a.place
  · by_cases ht : n.hasTransition a.transition
    · obtain ⟨x, hx⟩ := hasPlace_iff.1 hp
      obtain ⟨y, hy⟩ := hasTransition_iff.1 ht
      have hprow := h.1 ▸ Arena.lt_of_get? (place?_eq_some_iff.1 hx)
      have htrow := h.2 ▸ Arena.lt_of_get? (transition?_eq_some_iff.1 hy)
      obtain ⟨n', new, hok, _⟩ := hn.exists_addArc hp ht hprow htrow
      exact ne_fault_of_ok hok
    · simp only [Net.addArc, hp, ht, if_true]
      intro he
      cases he
  · simp only [Net.addArc, hp]
    intro he
    cases he

theorem Consistent.removeArc_ne_fault (hn : n.Consistent) (a : Arc) (f : Fault) :
    n.removeArc a ≠ .error (.fault f) := by
  by_cases ha : a ∈ n.arcs
  · obtain ⟨n', found, hok, _⟩ := hn.exists_removeArc ha
    exact ne_fault_of_ok hok
  · have hok : n.incidence.erase a = .ok (n.incidence, false) :=
      Incidence.erase_eq_ok_false_iff.2 ⟨ha, rfl⟩
    simp only [Net.removeArc, hok]
    intro he
    cases he

theorem Consistent.removePlace_ne_fault (hn : n.Consistent) (p : PlaceId) (f : Fault) :
    n.removePlace p ≠ .error (.fault f) := by
  cases hp : n.place? p with
  | some x =>
    obtain ⟨n', y, hok, _⟩ := hn.exists_removePlace (hasPlace_iff.2 ⟨x, hp⟩)
    exact ne_fault_of_ok hok
  | none =>
    simp only [Net.removePlace, hp]
    intro he
    cases he

theorem Consistent.removeTransition_ne_fault (hn : n.Consistent) (t : TransitionId) (f : Fault) :
    n.removeTransition t ≠ .error (.fault f) := by
  cases ht : n.transition? t with
  | some x =>
    obtain ⟨n', y, hok, _⟩ := hn.exists_removeTransition (hasTransition_iff.2 ⟨x, ht⟩)
    exact ne_fault_of_ok hok
  | none =>
    simp only [Net.removeTransition, ht]
    intro he
    cases he

/-- A consistent net whose rows fit is safe. -/
theorem Consistent.safe (hn : n.Consistent) (h : n.RowsFit) : n.Safe where
  checks := (consistent_iff_checkConsistency hn.mirrored.nodup).1 hn
  noFault e f := by
    cases e with
    | addPlace x => exact map_ne_fault (h.addPlace_ne_fault x f)
    | addTransition x => exact map_ne_fault (h.addTransition_ne_fault x f)
    | addArc a => exact map_ne_fault (hn.addArc_ne_fault h a f)
    | removeArc a => exact map_ne_fault (hn.removeArc_ne_fault a f)
    | removePlace p => exact map_ne_fault (hn.removePlace_ne_fault p f)
    | removeTransition t => exact map_ne_fault (hn.removeTransition_ne_fault t f)
  place x n' p hok := by rw [(hn.addPlace hok).place?, if_pos rfl]
  transition x n' t hok := by rw [(hn.addTransition hok).transition?, if_pos rfl]

/-- An edit that succeeds keeps a net consistent, and its rows as many as its slots. -/
theorem Consistent.edit (hn : n.Consistent) (h : n.RowsFit) {e : Edit} (hok : n.edit e = .ok n') :
    n'.Consistent ∧ n'.RowsFit := by
  cases e with
  | addPlace x =>
    obtain ⟨⟨_, p⟩, hcall, rfl⟩ := map_eq_ok hok
    refine ⟨(hn.addPlace hcall).consistent, ?_⟩
    obtain ⟨_, _, rfl⟩ := addPlace_eq_ok hcall
    exact ⟨by rw [Arena.size_push, Arena.size_push, h.1], h.2⟩
  | addTransition x =>
    obtain ⟨⟨_, t⟩, hcall, rfl⟩ := map_eq_ok hok
    refine ⟨(hn.addTransition hcall).consistent, ?_⟩
    obtain ⟨_, _, rfl⟩ := addTransition_eq_ok hcall
    exact ⟨h.1, by rw [Arena.size_push, Arena.size_push, h.2]⟩
  | addArc a =>
    obtain ⟨⟨_, new⟩, hcall, rfl⟩ := map_eq_ok hok
    have hadded := hn.addArc hcall
    exact ⟨hadded.consistent, hadded.nodes.rowsFit h⟩
  | removeArc a =>
    obtain ⟨⟨_, found⟩, hcall, rfl⟩ := map_eq_ok hok
    have hremoved := hn.removeArc hcall
    exact ⟨hremoved.1, hremoved.2.rowsFit h⟩
  | removePlace p =>
    obtain ⟨⟨_, x⟩, hcall, rfl⟩ := map_eq_ok hok
    have hgone := hn.removePlace hcall
    obtain ⟨_, _, _, _, rfl⟩ := removePlace_eq_ok hcall
    exact ⟨hgone.consistent, by rw [hgone.placeRows, Arena.size_set, h.1],
      hgone.transitionRows.trans h.2⟩
  | removeTransition t =>
    obtain ⟨⟨_, x⟩, hcall, rfl⟩ := map_eq_ok hok
    have hgone := hn.removeTransition hcall
    obtain ⟨_, _, _, _, rfl⟩ := removeTransition_eq_ok hcall
    exact ⟨hgone.consistent, hgone.placeRows.trans h.1,
      by rw [hgone.transitionRows, Arena.size_set, h.2]⟩

theorem Consistent.edited (hn : n.Consistent) (h : n.RowsFit) (e : Edit) :
    (n.edited e).Consistent ∧ (n.edited e).RowsFit := by
  unfold Net.edited
  split
  · rename_i hok
    exact hn.edit h hok
  · exact ⟨hn, h⟩

theorem Consistent.editedBy (hn : n.Consistent) (h : n.RowsFit) (es : List Edit) :
    (n.editedBy es).Consistent ∧ (n.editedBy es).RowsFit := by
  induction es generalizing n with
  | nil => exact ⟨hn, h⟩
  | cons e es ih =>
    obtain ⟨hn', h'⟩ := hn.edited h e
    exact ih hn' h'

theorem exists_fresh {ι : Type} (x : NameIndex ι) : ∃ name, x.contains name = false := by
  obtain ⟨name, hname⟩ := Infinite.exists_notMem_finset (x.entries.map (·.1)).toFinset
  refine ⟨name, ?_⟩
  rw [NameIndex.contains, NameIndex.find?, List.lookup_eq_none_iff.2]
  · rfl
  · intro e he
    rw [List.mem_toFinset] at hname
    exact bne_iff_ne.2 fun heq => hname (heq ▸ List.mem_map_of_mem he)

/-- A net without faults has rows that fit: else the next node that is added meets one. -/
theorem Safe.rowsFit (h : n.Safe) : n.RowsFit := by
  constructor
  · obtain ⟨name, hfresh⟩ := exists_fresh n.placeNames
    by_contra hne
    obtain ⟨f, hf⟩ := (addPlace_eq_fault_iff (x := ⟨name, .flow, ""⟩) hfresh).2 hne
    exact h.noFault (.addPlace _) f (by rw [Net.edit, hf]; rfl)
  · obtain ⟨name, hfresh⟩ := exists_fresh n.transitionNames
    by_contra hne
    obtain ⟨f, hf⟩ := (addTransition_eq_fault_iff (x := ⟨name, none, ""⟩) hfresh).2 hne
    exact h.noFault (.addTransition _) f (by rw [Net.edit, hf]; rfl)

/-- Any list of calls can edit a consistent net if and only if its rows fit. -/
theorem Consistent.safe_editedBy_iff (hn : n.Consistent) :
    (∀ es, (n.editedBy es).Safe) ↔ n.RowsFit := by
  constructor
  · exact fun h => (h []).rowsFit
  · intro h es
    obtain ⟨hn', h'⟩ := hn.editedBy h es
    exact hn'.safe h'

end Net

/-! ## Nets that were read -/

section Decoding

variable {τ : Type} [DocumentReader τ] {v : τ}

theorem nodup_eraseDups {α : Type} [DecidableEq α] (l : List α) : l.eraseDups.Nodup := by
  induction h : l.length using Nat.strongRecOn generalizing l with
  | ind k ih =>
    cases l with
    | nil => exact List.nodup_nil
    | cons x l =>
      rw [List.eraseDups_cons, List.nodup_cons]
      have hlt : (l.filter fun y => !y == x).length < k := by
        rw [← h]
        exact Nat.lt_succ_of_le (List.length_filter_le _ _)
      refine ⟨fun hmem => ?_, ih _ hlt _ rfl⟩
      have hkept := (List.mem_filter.1 (List.mem_eraseDups.1 hmem)).2
      simp at hkept

theorem Incidence.nodup_of_decode {inc : Incidence} (h : Incidence.decode? v = some inc) :
    inc.arcs.Nodup := by
  simp only [Incidence.decode?, Option.bind_eq_bind, Option.bind_eq_some_iff] at h
  obtain ⟨_, _, arcs, _, _, _, _, _, h⟩ := h
  cases h
  exact nodup_eraseDups arcs

theorem Net.nodup_of_decode {n : Net} (h : Net.decode? v = some n) : n.arcs.Nodup := by
  simp only [Net.decode?, Option.bind_eq_bind, Option.bind_eq_some_iff, Fields.required?] at h
  obtain ⟨_, _, _, _, _, _, _, _, inc, ⟨_, _, hinc⟩, _, _, _, _, h⟩ := h
  cases h
  exact Incidence.nodup_of_decode hinc

theorem AcceptingNet.nodup_of_decode {a : AcceptingNet} (h : AcceptingNet.decode? v = some a) :
    a.net.arcs.Nodup := by
  simp only [AcceptingNet.decode?, Option.bind_eq_bind, Option.bind_eq_some_iff,
    Fields.required?] at h
  obtain ⟨_, _, n, ⟨_, _, hn⟩, _, _, _, _, h⟩ := h
  cases h
  exact Net.nodup_of_decode hn

end Decoding

namespace AcceptingNet

open Net

variable {a b : AcceptingNet} {s : String}

theorem checked_eq_ok (h : checked a = .ok b) : a = b ∧ a.net.checkConsistency = .ok () := by
  unfold checked at h
  split at h
  · rename_i hcheck
    exact ⟨Except.ok.inj h, hcheck⟩
  · cases h

theorem nodup_of_readJson (h : readJson s = .ok a) : a.net.arcs.Nodup := by
  unfold readJson at h
  split at h
  · rename_i hread
    obtain ⟨v, _, hv⟩ := Option.bind_eq_some_iff.1 hread
    exact Except.ok.inj h ▸ nodup_of_decode hv
  · cases h

theorem nodup_of_readRon (h : readRon s = .ok a) : a.net.arcs.Nodup := by
  unfold readRon at h
  split at h
  · rename_i hread
    obtain ⟨v, _, hv⟩ := Option.bind_eq_some_iff.1 hread
    exact Except.ok.inj h ▸ nodup_of_decode hv
  · cases h

/-- What `ofJson` or `ofRon` takes from a text is consistent. -/
theorem consistent_of_read (h : ofJson s = .ok a ∨ ofRon s = .ok a) : a.net.Consistent := by
  obtain ⟨b, hnodup, hcheck⟩ : ∃ b : AcceptingNet, b.net.arcs.Nodup ∧ checked b = .ok a := by
    rcases h with h | h
    · cases hread : readJson s with
      | error e => simp [ofJson, hread, bind, Except.bind] at h
      | ok b => exact ⟨b, nodup_of_readJson hread, by rwa [ofJson, hread] at h⟩
    · cases hread : readRon s with
      | error e => simp [ofRon, hread, bind, Except.bind] at h
      | ok b => exact ⟨b, nodup_of_readRon hread, by rwa [ofRon, hread] at h⟩
  obtain ⟨rfl, hok⟩ := checked_eq_ok hcheck
  exact (consistent_iff_checkConsistency hnodup).2 hok

/-- A net that `ofJson` or `ofRon` took from a text can be edited for ever, without a fault and with all
its parts in agreement, if and only if its rows are as many as its slots. -/
theorem safe_editedBy_iff_rowsFit (h : ofJson s = .ok a ∨ ofRon s = .ok a) :
    (∀ es, (a.net.editedBy es).Safe) ↔ a.net.RowsFit :=
  (consistent_of_read h).safe_editedBy_iff

/-- An accepting net as it is read: one place, and the rows that `rows` says. -/
def onePlace (rows : Arena PlaceId (List (TransitionId × ArcKind))) : AcceptingNet where
  net :=
    { places := ⟨[some ⟨"p", .flow, ""⟩]⟩
      incidence := { byPlace := rows }
      placeNames := ⟨[("p", ⟨0⟩)]⟩ }

/-- One place with its row, as JSON with the fields in order. -/
def rowText : String :=
  "[[\"\",[[\"p\",\"Flow\",\"\"]],[],[[],[[]],[]],\x7b\"p\":0\x7d,\x7b\x7d],\x7b\x7d,\x7b\x7d]"

/-- One place and no row. -/
def rowlessText : String :=
  "[[\"\",[[\"p\",\"Flow\",\"\"]],[],[[],[],[]],\x7b\"p\":0\x7d,\x7b\x7d],\x7b\x7d,\x7b\x7d]"

theorem ofJson_rowText : ofJson rowText = .ok (onePlace ⟨[[]]⟩) := by decide +kernel

theorem ofJson_rowlessText : ofJson rowlessText = .ok (onePlace {}) := by decide +kernel

theorem rowText_safe : ∃ a, ofJson rowText = .ok a ∧ ∀ es, (a.net.editedBy es).Safe :=
  ⟨_, ofJson_rowText, (safe_editedBy_iff_rowsFit (.inl ofJson_rowText)).2 (by decide)⟩

/-- A net is taken from a text, and the next place meets a fault. -/
theorem rowlessText_faults : ∃ a, ofJson rowlessText = .ok a ∧
    a.net.edit (.addPlace ⟨"q", .flow, ""⟩) = .error (.fault .slotMismatch) :=
  ⟨_, ofJson_rowlessText, by decide⟩

end AcceptingNet

end ProcessNet
