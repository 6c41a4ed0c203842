/-
Gates under construction. The gate of a message on a subprocess is filled by the entry alone and taken
from by the message and by every exit. Its message, like every message on that subprocess, clears it.
No later part of the construction touches it.
-/
import ProcessNet.Proofs.Conversion.Effect
import ProcessNet.Proofs.Conversion.Lasting

namespace ProcessNet.Construction

open Identifier Net

variable {F : Fence} {c c' : Construction} {s : JoinedSubprocess} {name : String}
  {t u : TransitionId} {p : PlaceId}

/-- The fence around one place. -/
def around (p : PlaceId) (absorbs : Prop) : Fence := ⟨(· = p), False, absorbs⟩

/-- The place `p` is the gate of the transition `t`, which bears this name. -/
structure Gate (s : JoinedSubprocess) (name : String) (t : TransitionId) (p : PlaceId)
    (c : Construction) : Prop where
  bears : c.Bears t name
  apart : t ∉ s.enter :: s.exits
  fenced : ∀ absorbs, Fenced (around p absorbs) c
  unmarked : c.initial.tokens p = 0
  output : ∀ u, Arc.output u p ∈ c.net.arcs → u = s.enter
  input : ∀ u, Arc.input p u ∈ c.net.arcs ↔ u = t ∨ u ∈ s.exits

theorem Gate.kept {absorbs : Prop} (hg : Gate s name t p c) (h : Edits (around p absorbs) c c')
    (hc : c.Valid) : Gate s name t p c' where
  bears := h.bears hc hg.bears
  apart := hg.apart
  fenced b := by
    have hfenced := h.fenced (hg.fenced absorbs)
    exact ⟨hfenced.old, hfenced.flows, hfenced.sink⟩
  unmarked := (h.initial_eq rfl).trans hg.unmarked
  output u hu := by
    have hp : (around p absorbs).frozen (Arc.output u p).place := rfl
    exact hg.output u ((h.mem_arcs hc hp).2 rfl hu)
  input u := by
    have hp : (around p absorbs).frozen (Arc.input p u).place := rfl
    rw [← hg.input u]
    exact ⟨(h.mem_arcs hc hp).2 rfl, (h.mem_arcs hc hp).1⟩

/-- `addGate` adds a gate: a new place between the entry, which marks it, and the message and the exits,
which take from it. -/
theorem addGate_effect {event : Node} (hc : c.net.Consistent) (h : addGate s event t c = .ok () c') :
    ∃ p n, c' = { c with net := n } ∧ p = c.net.places.next ∧ c.net.hasPlace p = false ∧
      n.place? p = some
        { name := joinName ["boundary", event.id, s.id], role := .boundaryGate, process := s.id } ∧
      ∀ a, a ∈ n.arcs ↔
        a = .input p t ∨ (∃ u ∈ s.exits, a = .input p u) ∨ a = .output s.enter p ∨ a ∈ c.net.arcs := by
  obtain ⟨p, c₁, hplace, h⟩ := bind_eq_ok.1 h
  obtain ⟨_, c₂, henter, h⟩ := bind_eq_ok.1 h
  obtain ⟨_, c₃, hexits, hown⟩ := bind_eq_ok.1 h
  obtain ⟨n₁, rfl, hp, h₁⟩ := addPlace_effect hc hplace
  obtain ⟨n₂, rfl, h₂⟩ := addArc_effect h₁.consistent henter
  obtain ⟨n₃, rfl, h₃⟩ := addArcs_effect h₂.consistent hexits
  obtain ⟨n₄, rfl, h₄⟩ := addArc_effect h₃.consistent hown
  refine ⟨p, n₄, rfl, hp, h₁.fresh, ?_, fun a => ?_⟩
  · rw [h₄.nodes.place?, h₃.nodes.place?, h₂.nodes.place?, h₁.place?_self]
  · rw [h₄.mem_arcs, h₃.mem_arcs, h₂.mem_arcs, h₁.arcs]

/-- The gate that `addGate` gives to a message that has just got its transition. -/
theorem exists_gate {event : Node} (hc : c.Valid) (ht : c.Bears t name) (hapart : t ∉ s.enter :: s.exits)
    (h : addGate s event t c = .ok () c') : c'.Valid ∧ ∃ p, Gate s name t p c' ∧ c'.LiesIn p s.id := by
  obtain ⟨hedits, -⟩ := (makes_addGate s event t (F := unfenced)).run hc.unfenced h
  have hc' : c'.Valid := hedits.valid hc
  have ht' : c'.Bears t name := hedits.bears hc ht
  obtain ⟨p, n, rfl, hp, hfresh, hplace?, hmem⟩ := addGate_effect hc.consistent h
  -- The place is new, so it has no arcs and no flow leads to it.
  have hnone : ∀ a ∈ c.net.arcs, a.place ≠ p := fun _ => hc.consistent.place_ne hfresh
  have hold : ∀ q, index q < c.net.places.size → q ≠ p := fun _ hq he =>
    Arena.ne_next_of_lt hq (he.trans hp)
  refine ⟨hc', p, {
    bears := ht'
    apart := hapart
    fenced := fun _ => ⟨?old, fun f q hq => ⟨hold q (hc.flows f q hq), hc'.flows f q hq⟩,
      fun q hq => ⟨hold q (hc.sink q hq), hc'.sink q hq⟩⟩
    unmarked := Nat.eq_zero_of_not_pos fun hpos => hold p (hc.marked p hpos) rfl
    output := fun u hu => ?output
    input := fun u => ⟨fun hu => ?takes, fun hu => ?taken⟩ }, _, hplace?, rfl⟩
  case old =>
    rintro q rfl
    exact Arena.lt_of_get? (place?_eq_some_iff.1 hplace?)
  case output =>
    rcases (hmem _).1 hu with h | ⟨_, _, h⟩ | h | h
    · cases h
    · cases h
    · cases h
      rfl
    · exact absurd rfl (hnone _ h)
  case takes =>
    rcases (hmem _).1 hu with h | ⟨_, hu, h⟩ | h | h
    · cases h
      exact .inl rfl
    · cases h
      exact .inr hu
    · cases h
    · exact absurd rfl (hnone _ h)
  case taken =>
    rcases hu with rfl | hu
    · exact (hmem _).2 (.inl rfl)
    · exact (hmem _).2 (.inr (.inl ⟨u, hu, rfl⟩))

/-! ## All messages of a subprocess -/

/-- The node is a message event on the boundary of something. -/
def IsMessage (n : Node) : Prop := ∃ activity, n.kind = .boundaryEvent .message activity

/-- The message event `m` has a gate in its subprocess, and its transition is among these. -/
def Guarded (g : ProcessGraph) (s : JoinedSubprocess) (messages : List TransitionId) (m : NodeId)
    (c : Construction) : Prop :=
  ∃ t ∈ messages, ∃ p, Gate s (boundaryName (g.node m).id s.parent) t p c ∧ c.LiesIn p s.id

variable {g : ProcessGraph} {showEvents : Bool}

/-- One call of `addSubprocessBoundary`: a message gets a gate, and the gates that are there stay. -/
theorem guarded_addSubprocessBoundary {found found' : Interruptions} {m : NodeId} (hc : c.Valid)
    (hlive : ∀ u ∈ s.enter :: s.exits, c.net.hasTransition u)
    (h : addSubprocessBoundary g showEvents s found m c = .ok found' c') :
    (∀ k, Guarded g s found.messages k c → Guarded g s found'.messages k c') ∧
      (IsMessage (g.node m) → Guarded g s found'.messages m c') := by
  constructor
  · rintro k ⟨t, ht, p, hg, hp⟩
    obtain ⟨hedits, hmessages⟩ :=
      (makes_addSubprocessBoundary g showEvents s found m).run (hg.fenced False) h
    exact ⟨t, hmessages t ht, p, hg.kept hedits hc, hedits.liesIn hc rfl id hp⟩
  · rintro ⟨activity, hkind⟩
    simp only [addSubprocessBoundary, hkind] at h
    obtain ⟨q, c₁, hout, h⟩ := bind_eq_ok.1 h
    obtain ⟨t, c₂, htransition, h⟩ := bind_eq_ok.1 h
    obtain ⟨_, c₃, harc, h⟩ := bind_eq_ok.1 h
    obtain ⟨_, c₄, hgate, h⟩ := bind_eq_ok.1 h
    cases h
    have h₁ := ((makes_outPlace g m (F := unfenced)).run hc.unfenced hout).1
    have hc₁ := h₁.valid hc
    have h₂ := (makes_addTransition _ (F := unfenced)).within htransition hc₁.unfenced
    have hc₂ := h₂.valid hc₁
    have h₃ := (makes_addArc (fun _ => id) (F := unfenced)).within harc hc₂.unfenced
    have hc₃ := h₃.valid hc₂
    obtain ⟨n, rfl, hadded⟩ := addTransition_effect hc₁.consistent htransition
    have hbears : Bears { c₁ with net := n } t (boundaryName (g.node m).id s.parent) :=
      ⟨_, hadded.transition?_self, rfl⟩
    have hapart : t ∉ s.enter :: s.exits := fun ht =>
      ne_of_hasTransition (h₁.hasTransition hc (hlive t ht)) hadded.fresh rfl
    obtain ⟨_, p, hg, hp⟩ := exists_gate hc₃ (h₃.bears hc₂ hbears) hapart hgate
    exact ⟨t, List.mem_append_right _ List.mem_cons_self, p, hg, hp⟩

/-- All calls of `addSubprocessBoundary` for a subprocess. -/
theorem guarded_foldlM {events : List NodeId} {found found' : Interruptions} (hc : c.Valid)
    (hlive : ∀ u ∈ s.enter :: s.exits, c.net.hasTransition u)
    (h : events.foldlM (addSubprocessBoundary g showEvents s) found c = .ok found' c') :
    (∀ k, Guarded g s found.messages k c → Guarded g s found'.messages k c') ∧
      ∀ m ∈ events, IsMessage (g.node m) → Guarded g s found'.messages m c' := by
  induction events generalizing c found with
  | nil =>
    cases h
    exact ⟨fun _ => id, fun _ hm => nomatch hm⟩
  | cons k events ih =>
    rw [List.foldlM_cons] at h
    obtain ⟨found₁, c₁, hk, h⟩ := bind_eq_ok.1 h
    have hedits := (makes_addSubprocessBoundary g showEvents s found k (F := unfenced)).within hk
      hc.unfenced
    obtain ⟨hold, hnew⟩ := guarded_addSubprocessBoundary hc hlive hk
    obtain ⟨hrest, hall⟩ := ih (hedits.valid hc) (fun u hu => hedits.hasTransition hc (hlive u hu)) h
    refine ⟨fun m hm => hrest m (hold m hm), fun m hm hmessage => ?_⟩
    rcases List.mem_cons.1 hm with rfl | hm
    · exact hrest m (hnew hmessage)
    · exact hall m hm hmessage

/-- No token stays on `p` when `t` fires, or one less. -/
def Closes (t : TransitionId) (p : PlaceId) (c : Construction) : Prop :=
  Arc.input p t ∈ c.net.arcs ∨ Arc.reset p t ∈ c.net.arcs

theorem Closes.kept {absorbs : Prop} (hp : Closes t p c) (h : Edits (around p absorbs) c c')
    (hc : c.Valid) : Closes t p c' := by
  have hin : (around p absorbs).frozen (Arc.input p t).place := rfl
  have hreset : (around p absorbs).frozen (Arc.reset p t).place := rfl
  exact hp.imp (h.mem_arcs hc hin).1 (h.mem_arcs hc hreset).1

theorem closes_of_addReset (hc : c.Valid) (h : addReset t p c = .ok () c') : Closes t p c' := by
  unfold addReset at h
  rw [get_bind] at h
  by_cases harc : c.net.hasArc (.input p t)
  · rw [if_pos harc] at h
    cases h
    exact .inl (List.contains_iff_mem.1 harc)
  · rw [if_neg harc] at h
    obtain ⟨n, rfl, hadded⟩ := addArc_effect hc.consistent h
    exact .inr ((hadded.mem_arcs _).2 (.inl rfl))

theorem closes_of_addResets {scope : List PlaceId} (hc : c.Valid) (hfenced : Fenced (around p False) c)
    (hp : p ∈ scope) (h : addResets scope t c = .ok () c') : Closes t p c' := by
  obtain ⟨c₁, c₂, h₁, hturn, h₂⟩ := exists_of_mem_forM Within.refl Within.trans
    (fun q _ _ _ => (makes_addReset t q (F := around p False)).within) h hp
  have hc₁ := (h₁ hfenced).valid hc
  have hturn' := (makes_addReset t p).within hturn ((h₁ hfenced).fenced hfenced)
  have hfenced₂ := hturn'.fenced ((h₁ hfenced).fenced hfenced)
  exact (closes_of_addReset hc₁ hturn).kept (h₂ hfenced₂) (hturn'.valid hc₁)

/-- After `addSubprocessBoundaries` each message has a gate that every message closes. -/
theorem gates_of_addSubprocessBoundaries (hc : c.Valid)
    (hlive : ∀ u ∈ s.enter :: s.exits, c.net.hasTransition u)
    (h : addSubprocessBoundaries g showEvents s c = .ok () c') :
    ∃ messages : List TransitionId, ∀ m ∈ g.boundaryEventsOf s.id, IsMessage (g.node m) → ∃ t ∈ messages, ∃ p,
      Gate s (boundaryName (g.node m).id s.parent) t p c' ∧ ∀ u ∈ messages, Closes u p c' := by
  obtain ⟨found, c₁, c₂, hevents, hraised, hmessages⟩ := addSubprocessBoundaries_eq_ok.1 h
  have hedits := (makes_foldlM (Q := fun _ => True) trivial fun found n _ =>
    (makes_addSubprocessBoundary g showEvents s found n (F := unfenced)).mono
      fun _ _ => trivial).within hevents hc.unfenced
  have hc₁ := hedits.valid hc
  refine ⟨found.messages, fun m hm hmessage => ?_⟩
  obtain ⟨t, ht, p, hg, x, hx, hprocess⟩ := (guarded_foldlM hc hlive hevents).2 m hm hmessage
  -- The place lies in the scope that is computed now, and stays as it is from here on.
  have hscope : p ∈ scopePlaces g c₁.net s.id := by
    refine List.mem_map.2 ⟨(p, x), List.mem_filter.2 ⟨mem_livePlaces.2 hx, ?_⟩, rfl⟩
    simp [hprocess]
  have hraised' := (makes_forM fun q _ => makes_clearOnEntry q _).within hraised (hg.fenced False)
  have hc₂ := hraised'.valid hc₁
  have hg₂ := hg.kept hraised' hc₁
  have hturn : ∀ u ∈ found.messages, ∀ d d', addResets (scopePlaces g c₁.net s.id) u d = .ok () d' →
      Within (around p False) d d' := fun u _ _ _ => (makes_addResets _ u).within
  have hmessages' := rel_of_forM Within.refl Within.trans hturn hmessages (hg₂.fenced False)
  refine ⟨t, ht, p, hg₂.kept hmessages' hc₂, fun u hu => ?_⟩
  obtain ⟨d, d', h₁, hresets, h₂⟩ := exists_of_mem_forM Within.refl Within.trans hturn hmessages hu
  have hd := (h₁ (hg₂.fenced False)).valid hc₂
  have hfenced := (h₁ (hg₂.fenced False)).fenced (hg₂.fenced False)
  have hresets' := hturn u hu d d' hresets hfenced
  exact (closes_of_addResets hd hfenced hscope hresets).kept
    (h₂ (hresets'.fenced hfenced)) (hresets'.valid hd)

end ProcessNet.Construction
