/-
What the single additions of a construction do to its net, all told: a new place, a new transition,
arcs, and a transition with its arcs.
-/
import ProcessNet.Conversion.Basic
import ProcessNet.Proofs.Net.Growth
import ProcessNet.Proofs.Outcome

namespace ProcessNet

namespace Net

/-- `n'` is `n` with the new transition `x` under the identifier `t`, which takes from `inputs` and
puts into `outputs`. -/
structure StepAdded (n : Net) (x : Transition) (inputs outputs : List PlaceId) (t : TransitionId)
    (n' : Net) : Prop where
  consistent : n'.Consistent
  fresh : n.hasTransition t = false
  place? : ∀ p, n'.place? p = n.place? p
  transition? : ∀ u, n'.transition? u = if u = t then some x else n.transition? u
  mem_arcs : ∀ b, b ∈ n'.arcs ↔
    (∃ p ∈ inputs, b = .input p t) ∨ (∃ p ∈ outputs, b = .output t p) ∨ b ∈ n.arcs

namespace StepAdded

variable {n n' : Net} {x : Transition} {inputs outputs : List PlaceId} {t : TransitionId}

theorem transition?_self (h : StepAdded n x inputs outputs t n') : n'.transition? t = some x :=
  (h.transition? t).trans (if_pos rfl)

theorem transition?_kept (h : StepAdded n x inputs outputs t n') {u : TransitionId} {y : Transition}
    (hu : n.transition? u = some y) : n'.transition? u = some y := by
  rw [h.transition?, if_neg (ne_of_hasTransition (hasTransition_iff.2 ⟨y, hu⟩) h.fresh), hu]

end StepAdded

end Net

namespace Construction

open Net

variable {c c' : Construction}

theorem onNet_eq_ok {α : Type} {f : Net → Except NetError (Net × α)} {x : α} :
    onNet f c = .ok x c' ↔ ∃ n, f c.net = .ok (n, x) ∧ c' = { c with net := n } := by
  unfold onNet
  rw [get_bind]
  cases hf : f c.net with
  | error e =>
    constructor
    · intro h
      cases h
    · rintro ⟨n, h, _⟩
      cases h
  | ok r =>
    constructor
    · intro h
      cases h
      exact ⟨r.1, rfl, rfl⟩
    · rintro ⟨n, h, rfl⟩
      cases h
      rfl

theorem addPlace_effect (hc : c.net.Consistent) {x : Place} {p : PlaceId}
    (h : addPlace x c = .ok p c') :
    ∃ n, c' = { c with net := n } ∧ p = c.net.places.next ∧ PlaceAdded c.net x p n := by
  obtain ⟨n, hadd, rfl⟩ := onNet_eq_ok.1 h
  exact ⟨n, rfl, (addPlace_eq_ok hadd).2.1, hc.addPlace hadd⟩

theorem addTransition_effect (hc : c.net.Consistent) {x : Transition} {t : TransitionId}
    (h : addTransition x c = .ok t c') :
    ∃ n, c' = { c with net := n } ∧ TransitionAdded c.net x t n := by
  obtain ⟨n, hadd, rfl⟩ := onNet_eq_ok.1 h
  exact ⟨n, rfl, hc.addTransition hadd⟩

theorem addArc_effect (hc : c.net.Consistent) {a : Arc} (h : addArc a c = .ok () c') :
    ∃ n, c' = { c with net := n } ∧ Extended c.net (· = a) n := by
  obtain ⟨new, c₁, honNet, hpure⟩ := bind_eq_ok.1 h
  cases hpure
  obtain ⟨n, hadd, rfl⟩ := onNet_eq_ok.1 honNet
  exact ⟨n, rfl, hc.addArc hadd⟩

/-- What `forM` does with `addArc`. -/
theorem addArcs_effect {α : Type} {f : α → Arc} {l : List α} (hc : c.net.Consistent)
    (h : (l.forM fun x => addArc (f x)) c = .ok () c') :
    ∃ n, c' = { c with net := n } ∧ Extended c.net (fun b => ∃ x ∈ l, b = f x) n := by
  induction l generalizing c with
  | nil =>
    cases h
    exact ⟨c'.net, rfl, hc, .refl _, by simp⟩
  | cons x l ih =>
    rw [List.forM] at h
    obtain ⟨_, c₁, hx, hl⟩ := bind_eq_ok.1 h
    obtain ⟨n₁, rfl, h₁⟩ := addArc_effect hc hx
    obtain ⟨n₂, rfl, h₂⟩ := ih h₁.consistent hl
    refine ⟨n₂, rfl, h₂.consistent, h₁.nodes.trans h₂.nodes, fun b => ?_⟩
    rw [h₂.mem_arcs, h₁.mem_arcs]
    simp only [List.mem_cons, exists_eq_or_imp]
    rw [← or_assoc, or_comm (a := ∃ y ∈ l, b = f y)]

theorem addStep_effect (hc : c.net.Consistent) {x : Transition} {inputs outputs : List PlaceId}
    {t : TransitionId} (h : addStep x inputs outputs c = .ok t c') :
    ∃ n, c' = { c with net := n } ∧ StepAdded c.net x inputs outputs t n := by
  obtain ⟨_, c₁, ht, h⟩ := bind_eq_ok.1 h
  obtain ⟨_, c₂, hin, h⟩ := bind_eq_ok.1 h
  obtain ⟨_, c₃, hout, h⟩ := bind_eq_ok.1 h
  cases h
  obtain ⟨n₁, rfl, h₁⟩ := addTransition_effect hc ht
  obtain ⟨n₂, rfl, h₂⟩ := addArcs_effect h₁.consistent hin
  obtain ⟨n₃, rfl, h₃⟩ := addArcs_effect h₂.consistent hout
  refine ⟨n₃, rfl, h₃.consistent, h₁.fresh, fun p => ?_, fun u => ?_, fun b => ?_⟩
  · rw [h₃.nodes.place?, h₂.nodes.place?, h₁.place?]
  · rw [h₃.nodes.transition?, h₂.nodes.transition?, h₁.transition?]
  · rw [h₃.mem_arcs, h₂.mem_arcs, h₁.arcs, ← or_assoc, or_comm (a := ∃ p ∈ outputs, _), or_assoc]

/-! ## Places of flows -/

theorem flowPlace_eq_ok {f : FlowId} {p : PlaceId} :
    flowPlace f c = .ok p c' ↔ c.flowPlaces.lookup f = some p ∧ c' = c := by
  unfold flowPlace
  rw [get_bind]
  cases c.flowPlaces.lookup f with
  | none =>
    constructor
    · intro h
      cases h
    · rintro ⟨h, _⟩
      cases h
  | some q =>
    constructor
    · intro h
      cases h
      exact ⟨rfl, rfl⟩
    · rintro ⟨h, rfl⟩
      cases h
      rfl

theorem inPlace_eq_ok {g : ProcessGraph} {n : NodeId} {p : PlaceId} :
    inPlace g n c = .ok p c' ↔
      ∃ f, (g.node n).incoming.head? = some f ∧ c.flowPlaces.lookup f = some p ∧ c' = c := by
  unfold inPlace
  cases (g.node n).incoming with
  | nil =>
    constructor
    · intro h
      cases h
    · rintro ⟨_, h, _⟩
      cases h
  | cons f l => simp [flowPlace_eq_ok]

theorem outPlace_eq_ok {g : ProcessGraph} {n : NodeId} {p : PlaceId} :
    outPlace g n c = .ok p c' ↔
      ∃ f, (g.node n).outgoing.head? = some f ∧ c.flowPlaces.lookup f = some p ∧ c' = c := by
  unfold outPlace
  cases (g.node n).outgoing with
  | nil =>
    constructor
    · intro h
      cases h
    · rintro ⟨_, h, _⟩
      cases h
  | cons f l => simp [flowPlace_eq_ok]

/-- `mapM` of what only looks something up. -/
theorem mapM_eq_ok_of_reads {α β : Type} {f : α → ConstructionM β}
    (hreads : ∀ a d y d', f a d = .ok y d' → d' = d) {l : List α} {ys : List β}
    (h : l.mapM f c = .ok ys c') : c' = c ∧ List.Forall₂ (fun a y => f a c = .ok y c) l ys := by
  obtain ⟨rfl, hall⟩ := forall₂_of_mapM (R := Eq) Eq.refl (fun _ _ _ => Eq.trans)
    (fun a _ d y d' ha => (hreads a d y d' ha).symm) h
  refine ⟨rfl, hall.imp ?_⟩
  rintro a y ⟨_, _, rfl, ha, rfl⟩
  exact ha

theorem mapM_inPlace_eq_ok {g : ProcessGraph} {l : List NodeId} {ps : List PlaceId}
    (h : l.mapM (inPlace g) c = .ok ps c') :
    c' = c ∧ List.Forall₂ (fun n p => inPlace g n c = .ok p c) l ps := by
  refine mapM_eq_ok_of_reads (fun n d p d' hn => ?_) h
  obtain ⟨_, _, _, hd⟩ := inPlace_eq_ok.1 hn
  exact hd

theorem mapM_outPlace_eq_ok {g : ProcessGraph} {l : List NodeId} {ps : List PlaceId}
    (h : l.mapM (outPlace g) c = .ok ps c') :
    c' = c ∧ List.Forall₂ (fun n p => outPlace g n c = .ok p c) l ps := by
  refine mapM_eq_ok_of_reads (fun n d p d' hn => ?_) h
  obtain ⟨_, _, _, hd⟩ := outPlace_eq_ok.1 hn
  exact hd

/-- Behind a check by `lacks` that would have failed. -/
theorem unless_eq_ok {β : Type} {failing : Bool} {g : ProcessGraph} {n : NodeId} {d : Deficiency}
    {rest : PUnit → ConstructionM β} {x : β}
    (h : (if failing then lacks g n d >>= rest else rest ()) c = .ok x c') :
    failing = false ∧ rest () c = .ok x c' := by
  cases failing with
  | true =>
    obtain ⟨_, _, hlacks, _⟩ := bind_eq_ok.1 h
    cases hlacks
  | false => exact ⟨rfl, h⟩

end Construction

end ProcessNet
