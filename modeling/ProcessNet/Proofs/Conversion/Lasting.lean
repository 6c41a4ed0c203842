/-
What lasts under edits: a transition keeps its name, a frozen place stays live and, as long as nothing
is handed over, in its process. The arcs of a frozen place stay as they are, and it stays unmarked.
-/
import ProcessNet.Proofs.Conversion.Valid

namespace ProcessNet.Construction

open Identifier Net

variable {F : Fence} {c c' : Construction} {t : TransitionId} {p : PlaceId} {name process : String}

/-- The live transition `t` has this name. -/
def Bears (c : Construction) (t : TransitionId) (name : String) : Prop :=
  ∃ x, c.net.transition? t = some x ∧ x.name = name

/-- The live place `p` is in this process. -/
def LiesIn (c : Construction) (p : PlaceId) (process : String) : Prop :=
  ∃ x, c.net.place? p = some x ∧ x.process = process

theorem Edit.bears (h : Edit F c c') (hc : c.Valid) : c.Bears t name → c'.Bears t name := by
  rintro ⟨x, hx, rfl⟩
  cases h with
  | place hp => exact ⟨x, ((hc.consistent.addPlace hp).transition? t).trans hx, rfl⟩
  | transition ht => exact ⟨x, (hc.consistent.addTransition ht).transition?_kept hx, rfl⟩
  | arc _ ha => exact ⟨x, ((hc.consistent.addArc ha).nodes.transition? t).trans hx, rfl⟩
  | drop _ hp => exact ⟨x, ((hc.consistent.removePlace hp).transition? t).trans hx, rfl⟩
  | absorb s =>
    refine ⟨_, (transition?_mapNodes t).trans (congrArg _ hx), ?_⟩
    dsimp only
    split <;> rfl
  | mark | finish | register => exact ⟨x, hx, rfl⟩

theorem Edits.bears (h : Edits F c c') (hc : c.Valid) (ht : c.Bears t name) :
    c'.Bears t name := by
  induction h with
  | refl => exact ht
  | tail hs he ih => exact he.bears (Edits.valid hs hc) ih

/-- Transitions are never removed. -/
theorem Edits.hasTransition (h : Edits F c c') (hc : c.Valid) (ht : c.net.hasTransition t) :
    c'.net.hasTransition t := by
  obtain ⟨x, hx⟩ := hasTransition_iff.1 ht
  obtain ⟨x', hx', -⟩ := h.bears hc ⟨x, hx, rfl⟩
  exact hasTransition_iff.2 ⟨x', hx'⟩

/-- In a net whose parts agree a name tells the transition. -/
theorem Bears.unique {u : TransitionId} (hc : c.net.Consistent) (ht : c.Bears t name)
    (hu : c.Bears u name) : t = u := by
  obtain ⟨x, hx, rfl⟩ := ht
  obtain ⟨y, hy, hname⟩ := hu
  have ht := hc.transitionNames.find t x (transition?_eq_some_iff.1 hx)
  have hu := hc.transitionNames.find u y (transition?_eq_some_iff.1 hy)
  rw [hname, ht] at hu
  exact Option.some.inj hu

theorem Bears.live (ht : c.Bears t name) : c.net.hasTransition t := by
  obtain ⟨x, hx, _⟩ := ht
  exact hasTransition_iff.2 ⟨x, hx⟩

/-- A frozen place is kept, and its data with it but for the process. -/
theorem Edit.place?_eq (h : Edit F c c') (hc : c.Valid) (hp : F.frozen p) {x : Place}
    (hx : c.net.place? p = some x) :
    ∃ x', c'.net.place? p = some x' ∧ (¬ F.absorbs → x' = x) := by
  cases h with
  | place hq => exact ⟨x, (hc.consistent.addPlace hq).place?_kept hx, fun _ => rfl⟩
  | transition ht => exact ⟨x, ((hc.consistent.addTransition ht).place? p).trans hx, fun _ => rfl⟩
  | arc _ ha => exact ⟨x, ((hc.consistent.addArc ha).nodes.place? p).trans hx, fun _ => rfl⟩
  | drop hfree hq =>
    refine ⟨x, ?_, fun _ => rfl⟩
    rw [(hc.consistent.removePlace hq).place?, if_neg, hx]
    rintro rfl
    exact hfree hp
  | absorb s hF => exact ⟨_, (place?_mapNodes p).trans (congrArg _ hx), fun hnot => absurd hF hnot⟩
  | mark | finish | register => exact ⟨x, hx, fun _ => rfl⟩

theorem Edit.liesIn (h : Edit F c c') (hc : c.Valid) (hp : F.frozen p) (hF : ¬ F.absorbs) :
    c.LiesIn p process → c'.LiesIn p process := by
  rintro ⟨x, hx, rfl⟩
  obtain ⟨x', hx', he⟩ := h.place?_eq hc hp hx
  exact ⟨x', hx', by rw [he hF]⟩

theorem Edits.liesIn (h : Edits F c c') (hc : c.Valid) (hp : F.frozen p) (hF : ¬ F.absorbs)
    (hin : c.LiesIn p process) : c'.LiesIn p process := by
  induction h with
  | refl => exact hin
  | tail hs he ih => exact he.liesIn (Edits.valid hs hc) hp hF ih

/-- Arcs at a frozen place are neither removed nor, if they move tokens, added. -/
theorem Edit.mem_arcs (h : Edit F c c') (hc : c.Valid) {a : Arc} (ha : F.frozen a.place) :
    (a ∈ c.net.arcs → a ∈ c'.net.arcs) ∧ (a.kind.isNormal → a ∈ c'.net.arcs → a ∈ c.net.arcs) := by
  cases h with
  | place hq => rw [(hc.consistent.addPlace hq).arcs]; exact ⟨id, fun _ => id⟩
  | transition ht => rw [(hc.consistent.addTransition ht).arcs]; exact ⟨id, fun _ => id⟩
  | @arc b _ _ hb hadd =>
    rw [(hc.consistent.addArc hadd).mem_arcs]
    refine ⟨.inr, fun hk => ?_⟩
    rintro (rfl | hmem)
    · exact absurd ha (hb hk)
    · exact hmem
  | drop hfree hq =>
    rw [(hc.consistent.removePlace hq).mem_arcs]
    refine ⟨fun hmem => ⟨hmem, ?_⟩, fun _ hmem => hmem.1⟩
    rintro rfl
    exact hfree ha
  | absorb | mark | finish | register => exact ⟨id, fun _ => id⟩

theorem Edits.mem_arcs (h : Edits F c c') (hc : c.Valid) {a : Arc} (ha : F.frozen a.place) :
    (a ∈ c.net.arcs → a ∈ c'.net.arcs) ∧ (a.kind.isNormal → a ∈ c'.net.arcs → a ∈ c.net.arcs) := by
  induction h with
  | refl => exact ⟨id, fun _ => id⟩
  | tail hs he ih =>
    have hstep := he.mem_arcs (Edits.valid hs hc) ha
    exact ⟨fun hmem => hstep.1 (ih.1 hmem), fun hk hmem => ih.2 hk (hstep.2 hk hmem)⟩

/-- No frozen place is marked. -/
theorem Edit.initial_eq (h : Edit F c c') (hp : F.frozen p) :
    c'.initial.tokens p = c.initial.tokens p := by
  cases h with
  | mark hfree _ hm =>
    rw [Marking.tokens_add hm, if_neg]
    rintro rfl
    exact hfree hp
  | place | transition | arc | drop | finish | register | absorb => rfl

theorem Edits.initial_eq (h : Edits F c c') (hp : F.frozen p) :
    c'.initial.tokens p = c.initial.tokens p := by
  induction h with
  | refl => rfl
  | tail _ he ih => exact (he.initial_eq hp).trans ih

/-- Without registration flows keep their places. -/
theorem Edits.flowPlaces_eq (h : Edits F c c') (hF : ¬ F.registers) :
    c'.flowPlaces = c.flowPlaces := by
  induction h with
  | refl => rfl
  | tail _ he ih =>
    cases he with
    | register _ hreg => exact absurd hreg hF
    | place | transition | arc | drop | mark | finish | absorb => exact ih

end ProcessNet.Construction
