/-
Constructions as sequences of edits. All parts of the construction of a net come down to a few kinds
of edits within a fence. None of them moves tokens through a frozen place: it gets no further input or
output arcs, it is not removed and not marked. What every edit keeps, the whole construction keeps.
-/
import Mathlib.Logic.Relation
import ProcessNet.Conversion.Result
import ProcessNet.Proofs.Net.Growth
import ProcessNet.Proofs.Outcome

namespace ProcessNet.Construction

open Identifier Net

/-- What `absorb` makes of a construction. -/
def absorbed (s : JoinedSubprocess) (c : Construction) : Construction :=
  let place := fun (p : Place) => if p.process = s.id then { p with process := s.parent } else p
  let transition := fun (t : Transition) =>
    if t.process = s.id then { t with process := s.parent } else t
  { c with net := c.net.mapNodes place transition }

/-- What edits must not do: no edit moves tokens through a frozen place, and flows get places and
subprocesses are handed over only where this is said. -/
structure Fence where
  frozen : PlaceId → Prop
  registers : Prop
  absorbs : Prop

/-- One edit within a fence. -/
inductive Edit (F : Fence) (c : Construction) : Construction → Prop
  | place {p : Place} {n : Net} {id : PlaceId} :
    c.net.addPlace p = .ok (n, id) → Edit F c { c with net := n }
  | transition {t : Transition} {n : Net} {id : TransitionId} :
    c.net.addTransition t = .ok (n, id) → Edit F c { c with net := n }
  | arc {a : Arc} {n : Net} {new : Bool} : (a.kind.isNormal → ¬ F.frozen a.place) →
    c.net.addArc a = .ok (n, new) → Edit F c { c with net := n }
  | drop {p : PlaceId} {n : Net} {x : Place} : ¬ F.frozen p →
    c.net.removePlace p = .ok (n, x) → Edit F c { c with net := n }
  | mark {p : PlaceId} {m : Marking} : ¬ F.frozen p → index p < c.net.places.size →
    c.initial.add p 1 = .ok m → Edit F c { c with initial := m }
  | finish (p : PlaceId) : Edit F c { c with final := c.final.set p 1 }
  | register (f : FlowId) {p : PlaceId} {sink : Option PlaceId} : F.registers →
    (¬ F.frozen p ∧ index p < c.net.places.size) →
    (∀ q, sink = some q → ¬ F.frozen q ∧ index q < c.net.places.size) →
    Edit F c { c with flowPlaces := (f, p) :: c.flowPlaces, rootSink := sink }
  | absorb (s : JoinedSubprocess) : F.absorbs → Edit F c (absorbed s c)

/-- Any number of edits. -/
def Edits (F : Fence) : Construction → Construction → Prop := Relation.ReflTransGen (Edit F)

/-- Frozen places are there already; places of flows are there too, and none of them is frozen. -/
structure Fenced (F : Fence) (c : Construction) : Prop where
  old : ∀ p, F.frozen p → index p < c.net.places.size
  flows : ∀ f p, c.flowPlaces.lookup f = some p → ¬ F.frozen p ∧ index p < c.net.places.size
  sink : ∀ p, c.rootSink = some p → ¬ F.frozen p ∧ index p < c.net.places.size

variable {F : Fence} {c c' : Construction}

/-! ## What an edit leaves -/

/-- Places are never taken out of their arena. -/
theorem Edit.places_size (h : Edit F c c') : c.net.places.size ≤ c'.net.places.size := by
  cases h with
  | place hp =>
    obtain ⟨_, _, rfl⟩ := addPlace_eq_ok hp
    simp
  | transition ht =>
    obtain ⟨_, _, rfl⟩ := addTransition_eq_ok ht
    exact Nat.le_refl _
  | arc _ ha =>
    obtain ⟨_, _, _, _, rfl⟩ := addArc_eq_ok ha
    exact Nat.le_refl _
  | drop _ hp =>
    obtain ⟨_, _, _, _, rfl⟩ := removePlace_eq_ok hp
    simp
  | absorb s => simp [absorbed, mapNodes, Arena.size, Arena.mapEntries]
  | mark | finish | register => exact Nat.le_refl _

theorem Edit.fenced (h : Edit F c c') (hc : Fenced F c) : Fenced F c' := by
  have hsize := h.places_size
  refine ⟨fun p hp => Nat.lt_of_lt_of_le (hc.old p hp) hsize, ?_, ?_⟩
  · intro f p hf
    have hold : c.flowPlaces.lookup f = some p → ¬ F.frozen p ∧ index p < c'.net.places.size :=
      fun hf => ⟨(hc.flows f p hf).1, Nat.lt_of_lt_of_le (hc.flows f p hf).2 hsize⟩
    cases h with
    | register g _ hp _ =>
      by_cases hfg : f = g
      · rw [hfg, List.lookup_cons_self] at hf
        cases hf
        exact hp
      · rw [List.lookup_cons, beq_false_of_ne hfg] at hf
        exact hold hf
    | place | transition | arc | drop | mark | finish | absorb => exact hold hf
  · intro p hp
    have hold : c.rootSink = some p → ¬ F.frozen p ∧ index p < c'.net.places.size :=
      fun hp => ⟨(hc.sink p hp).1, Nat.lt_of_lt_of_le (hc.sink p hp).2 hsize⟩
    cases h with
    | register g _ _ hsink => exact hsink p hp
    | place | transition | arc | drop | mark | finish | absorb => exact hold hp

theorem Edits.fenced (h : Edits F c c') (hc : Fenced F c) : Fenced F c' := by
  induction h with
  | refl => exact hc
  | tail _ he ih => exact he.fenced ih

/-! ## Programs of edits -/

/-- A program in `ConstructionM` that, where it succeeds, makes edits and gives an answer with a
property. -/
def Makes {α : Type} (F : Fence) (P : α → Prop) (m : ConstructionM α) : Prop :=
  ∀ c, Fenced F c → Ends (fun x c' => Edits F c c' ∧ P x) (fun _ _ => True) (m c)

section Makes

variable {α β : Type} {P : α → Prop} {Q : β → Prop}

theorem Makes.run {m : ConstructionM α} (h : Makes F P m) (hc : Fenced F c) {x : α}
    (hrun : m c = .ok x c') : Edits F c c' ∧ P x := by
  have hends := h c hc
  rw [hrun] at hends
  exact hends

/-- What a program comes to from a state that is fenced. -/
def Within (F : Fence) (c c' : Construction) : Prop := Fenced F c → Edits F c c'

theorem Within.refl (c : Construction) : Within F c c := fun _ => .refl

theorem Within.trans (c₁ c₂ c₃ : Construction) (h : Within F c₁ c₂) (k : Within F c₂ c₃) :
    Within F c₁ c₃ :=
  fun hc => (h hc).trans (k ((h hc).fenced hc))

theorem Makes.within {m : ConstructionM α} (h : Makes F P m) {x : α} (hrun : m c = .ok x c') :
    Within F c c' :=
  fun hc => (h.run hc hrun).1

theorem Makes.mono {P' : α → Prop} {m : ConstructionM α} (h : Makes F P m)
    (hgood : ∀ x, P x → P' x) : Makes F P' m :=
  fun c hc => (h c hc).imp (fun _ _ hx => ⟨hx.1, hgood _ hx.2⟩) fun _ _ he => he

theorem makes_pure {x : α} (hx : P x) : Makes F P (pure x : ConstructionM α) :=
  fun _ _ => ⟨.refl, hx⟩

theorem makes_throw (e : ConversionError) : Makes F P (throw e : ConstructionM α) :=
  fun _ _ => trivial

theorem Makes.bind {m : ConstructionM α} {f : α → ConstructionM β} (hm : Makes F P m)
    (hf : ∀ x, P x → Makes F Q (f x)) : Makes F Q (m >>= f) := by
  intro c hc
  refine Ends.bind ((hm c hc).imp (fun x c₁ hx => ?_) fun _ _ he => he)
  exact (hf x hx.2 c₁ (hx.1.fenced hc)).imp (fun y c₂ hy => ⟨hx.1.trans hy.1, hy.2⟩)
    fun _ _ he => he

/-- `get` is no edit; what is known of the state is at hand. -/
theorem makes_get {f : Construction → ConstructionM β}
    (hf : ∀ c, Fenced F c → Makes F Q (f c)) : Makes F Q (get >>= f) :=
  fun c hc => hf c hc c hc

/-- `unless` stands in front of the rest of a program as a check that may fail. -/
theorem makes_unless {failing : Bool} {m : ConstructionM PUnit} {rest : PUnit → ConstructionM β}
    (hm : Makes F (fun _ => True) m) (hrest : Makes F Q (rest ())) :
    Makes F Q (if failing then m >>= rest else rest ()) := by
  split
  · exact hm.bind fun _ _ => hrest
  · exact hrest

theorem makes_forM {f : α → ConstructionM PUnit} {l : List α}
    (h : ∀ x ∈ l, Makes F (fun _ => True) (f x)) :
    Makes F (fun _ => True) (l.forM f) := by
  induction l with
  | nil => exact makes_pure trivial
  | cons x l ih =>
    rw [List.forM]
    exact (h x List.mem_cons_self).bind fun _ _ => ih fun y hy => h y (List.mem_cons_of_mem _ hy)

theorem makes_foldlM {f : β → α → ConstructionM β} {l : List α} {y : β} (hy : Q y)
    (h : ∀ y x, Q y → Makes F Q (f y x)) : Makes F Q (l.foldlM f y) := by
  induction l generalizing y with
  | nil => exact makes_pure hy
  | cons x l ih =>
    rw [List.foldlM_cons]
    exact (h y x hy).bind fun z hz => ih hz

theorem makes_mapM_of_mem {f : α → ConstructionM β} {l : List α}
    (h : ∀ x ∈ l, Makes F Q (f x)) :
    Makes F (fun ys => ∀ y ∈ ys, Q y) (l.mapM f) := by
  induction l with
  | nil =>
    rw [List.mapM_nil]
    exact makes_pure fun _ hy => nomatch hy
  | cons x l ih =>
    rw [List.mapM_cons]
    refine (h x List.mem_cons_self).bind fun y hy =>
      (ih fun z hz => h z (List.mem_cons_of_mem _ hz)).bind fun ys hys =>
        makes_pure fun z hz => ?_
    rcases List.mem_cons.1 hz with rfl | hz
    · exact hy
    · exact hys z hz

theorem makes_mapM {f : α → ConstructionM β} {l : List α} (h : ∀ x, Makes F Q (f x)) :
    Makes F (fun ys => ∀ y ∈ ys, Q y) (l.mapM f) :=
  makes_mapM_of_mem fun x _ => h x

end Makes

theorem ends_onNet {α : Type} {f : Net → Except NetError (Net × α)} {c : Construction} :
    Ends (fun x c' => ∃ n, f c.net = .ok (n, x) ∧ c' = { c with net := n }) (fun _ _ => True)
      (onNet f c) := by
  unfold onNet
  rw [get_bind]
  cases hf : f c.net with
  | error e => trivial
  | ok r => exact ⟨r.1, rfl, rfl⟩

/-- `onNet` with a change that is an edit. -/
theorem makes_onNet {α : Type} {P : α → Prop} {f : Net → Except NetError (Net × α)}
    (h : ∀ c n x, Fenced F c → f c.net = .ok (n, x) → Edit F c { c with net := n } ∧ P x) :
    Makes F P (onNet f) := by
  intro c hc
  refine ends_onNet.imp ?_ fun _ _ he => he
  rintro x _ ⟨n, hf, rfl⟩
  obtain ⟨he, hx⟩ := h c n x hc hf
  exact ⟨.single he, hx⟩

theorem makes_addPlace (p : Place) : Makes F (fun id => ¬ F.frozen id) (addPlace p) := by
  refine makes_onNet fun c n id hc h => ⟨.place h, fun hid => ?_⟩
  obtain ⟨_, rfl, _⟩ := addPlace_eq_ok h
  exact Arena.ne_next_of_lt (hc.old _ hid) rfl

theorem makes_addTransition (t : Transition) :
    Makes F (fun _ => True) (addTransition t) :=
  makes_onNet fun _ _ _ _ h => ⟨.transition h, trivial⟩

theorem makes_addArc {a : Arc} (ha : a.kind.isNormal → ¬ F.frozen a.place) :
    Makes F (fun _ => True) (addArc a) :=
  (makes_onNet (P := fun _ => True) fun _ _ _ _ h => ⟨.arc ha h, trivial⟩).bind
    fun _ _ => makes_pure trivial

theorem makes_addStep {t : Transition} {inputs outputs : List PlaceId}
    (hin : ∀ p ∈ inputs, ¬ F.frozen p) (hout : ∀ p ∈ outputs, ¬ F.frozen p) :
    Makes F (fun _ => True) (addStep t inputs outputs) :=
  (makes_addTransition t).bind fun _ _ =>
    (makes_forM fun p hp => makes_addArc fun _ => hin p hp).bind fun _ _ =>
      (makes_forM fun p hp => makes_addArc fun _ => hout p hp).bind fun _ _ => makes_pure trivial

theorem makes_flowPlace (f : FlowId) : Makes F (fun p => ¬ F.frozen p) (flowPlace f) := by
  refine makes_get fun c hc => ?_
  split
  · rename_i p hp
    exact makes_pure (hc.flows f p hp).1
  · exact makes_throw _

/-- `modify` with a change that is an edit. -/
theorem makes_modify {h : Construction → Construction}
    (hedit : ∀ c, Fenced F c → Edit F c (h c)) :
    Makes F (fun _ => True) (modify h : ConstructionM PUnit) :=
  fun c hc => ⟨.single (hedit c hc), trivial⟩

end ProcessNet.Construction
