/-
Constructions stitch by stitch. Once the flows have their places, all that is done to a net is one of a
few kinds of stitches, each with the reason for it in the graph: which way tokens go by a new step, which
event a new transition is for, why an arc is drawn or a place removed. What every stitch keeps, the whole
construction keeps.
-/
import ProcessNet.Proofs.Conversion.Nesting
import ProcessNet.Proofs.Process.Normal

namespace ProcessNet.Construction

open Identifier Net ProcessGraph

/-! ## The ways of tokens -/

/-- The ways that steps lead tokens along. -/
inductive Way where
  /-- Through a task, an intermediate event or a gateway. -/
  | through (n : NodeId)
  /-- From the front of a task to an event on it. -/
  | aside (task event : NodeId)
  /-- Into a subprocess, to its starts. -/
  | into (n : NodeId)
  /-- From a normal end in a subprocess out of it. -/
  | outOf (n : NodeId)
  /-- From a terminate end in a subprocess out of it. -/
  | skip (n : NodeId)
  /-- From a terminate end of the root process to its sink. -/
  | stop

namespace Way

variable (g : ProcessGraph)

def Fits : Way → Prop
  | through n =>
    match (g.node n).kind with
    | .task | .catchEvent _ | .throwEvent _ | .gateway _ _ => True
    | _ => False
  | aside task event =>
    (g.node task).kind = .task ∧
      ∃ trigger, (g.node event).kind = .boundaryEvent trigger (g.node task).id
  | into n | outOf n | skip n => (g.node n).kind.isSubprocess
  | stop => True

/-- The flows that the way starts from. -/
def Takes (f : FlowId) : Way → Prop
  | through n | into n => (g.flow f).target = n
  | aside task _ => (g.flow f).target = task
  | outOf n =>
    (g.node (g.flow f).target).process = (g.node n).id ∧
      (g.node (g.flow f).target).kind = .endEvent .normal
  | skip n =>
    (g.node (g.flow f).target).process = (g.node n).id ∧
      (g.node (g.flow f).target).kind = .endEvent .terminate
  | stop =>
    (g.node (g.flow f).target).process = g.processId ∧
      (g.node (g.flow f).target).kind = .endEvent .terminate

/-- The flows that the way leads to. -/
def Gives (f : FlowId) : Way → Prop
  | through n | outOf n | skip n => (g.flow f).source = n
  | aside _ event => (g.flow f).source = event
  | into n =>
    (g.node (g.flow f).source).process = (g.node n).id ∧ (g.node (g.flow f).source).kind.isStart
  | stop => entersRootEnd g (g.flow f)

/-- Only entries are told by their names. -/
def Named (name : String) : Way → Prop
  | into n => name = entryName (g.node n).id (g.node n).process
  | _ => True

/-- The process that steps on the way belong to. -/
def process : Way → String
  | through n | into n | outOf n | skip n => (g.node n).process
  | aside task _ => (g.node task).process
  | stop => g.processId

/-- The transition is told to be a step on the way, by its name and its process. -/
structure IsStep (w : Way) (x : Transition) : Prop where
  name : w.Named g x.name
  process : x.process = w.process g

def isSilent : Way → Bool
  | through _ | aside _ _ => false
  | into _ | outOf _ | skip _ | stop => true

end Way

/-! ## Ends that raise events -/

variable {g : ProcessGraph} {c c' : Construction} {f k : FlowId} {p q : PlaceId} {t : TransitionId}

/-- The flow enters an end of the process that raises an error or a cancellation. -/
def Raising (g : ProcessGraph) (f : FlowId) (process : String) : Prop :=
  (g.node (g.flow f).target).process = process ∧ ∃ trigger : BoundaryTrigger,
    trigger.isInternal ∧ (g.node (g.flow f).target).kind = .endEvent trigger.endTrigger

/-- The flow leads out of an event on `s`; or it enters an end that is merged with what such a flow
enters. -/
def Escapes (g : ProcessGraph) (c : Construction) (s : JoinedSubprocess) (k : FlowId) : Prop :=
  (g.flow k).source ∈ g.boundaryEventsOf s.id ∨
    ∃ j q, c.flowPlaces.lookup j = some q ∧ (g.flow j).source ∈ g.boundaryEventsOf s.id ∧
      Raising g j s.id

theorem Escapes.iff_of_eq {s : JoinedSubprocess} (h : c'.flowPlaces = c.flowPlaces) :
    Escapes g c' s k ↔ Escapes g c s k := by
  rw [Escapes, Escapes, h]

/-- The two flows enter ends that raise the same. -/
structure SameEnd (g : ProcessGraph) (f k : FlowId) : Prop where
  process : (g.node (g.flow k).target).process = (g.node (g.flow f).target).process
  kind : (g.node (g.flow k).target).kind = (g.node (g.flow f).target).kind
  eventName : (g.node (g.flow k).target).eventName = (g.node (g.flow f).target).eventName

/-- A live place that is a gate. -/
def IsGate (c : Construction) (p : PlaceId) : Prop :=
  ∃ x, c.net.place? p = some x ∧ x.role = .boundaryGate

theorem IsGate.live (h : IsGate c p) : c.net.hasPlace p := by
  obtain ⟨x, hx, _⟩ := h
  exact hasPlace_iff.2 ⟨x, hx⟩

/-! ## Stitches -/

/-- What a part of the construction may do: the ways of its steps, the subprocesses whose events it
adds, and whether it hands subprocesses over. -/
structure Permit where
  way : Way → Prop := fun _ => False
  sub : JoinedSubprocess → Prop := fun _ => False
  absorbs : Prop := False

variable {P : Permit}

/-- Arcs that are drawn one by one, each for its reason. -/
inductive Laid (g : ProcessGraph) (P : Permit) (c : Construction) : Arc → Prop
  /-- From the transition of an event to the flow behind it. -/
  | leave {s : JoinedSubprocess} {m : NodeId} {f : FlowId} {t : TransitionId} {q : PlaceId} :
    P.sub s → m ∈ g.boundaryEventsOf s.id → c.Bears t (boundaryName (g.node m).id s.parent) →
    c.flowPlaces.lookup f = some q → (g.flow f).source = m → (∀ r, Arc.input r t ∉ c.net.arcs) →
    Laid g P c (.output t q)
  /-- From an end to the transition of the event that it raises; no other such end is left. -/
  | catch {s : JoinedSubprocess} {f : FlowId} {p : PlaceId} {t : TransitionId} :
    P.sub s → c.flowPlaces.lookup f = some p → Raising g f s.id →
    (∀ k q, c.flowPlaces.lookup k = some q → SameEnd g f k → c.net.hasPlace q → q = p) →
    (∀ q, Arc.input q t ∉ c.net.arcs) →
    (∀ q, Arc.output t q ∈ c.net.arcs → ∃ k, c.flowPlaces.lookup k = some q ∧ Escapes g c s k) →
    (∀ q, Arc.reset q t ∉ c.net.arcs) → Laid g P c (.input p t)
  /-- From an entry to a new gate. -/
  | opens {s : JoinedSubprocess} {p : PlaceId} {x : Place} :
    P.sub s → c.net.place? p = some x → x.role = .boundaryGate → x.process = s.id →
    (∀ t, Arc.output t p ∉ c.net.arcs) → Laid g P c (.output s.enter p)
  /-- From a gate to an exit or a message. -/
  | closes {s : JoinedSubprocess} {p : PlaceId} {t : TransitionId} :
    P.sub s → IsGate c p → t ∈ s.exits ∨ (∀ q, Arc.input q t ∉ c.net.arcs) →
    (∀ u, Arc.reset p u ∉ c.net.arcs) → Laid g P c (.input p t)
  /-- From what leads to an end to another end that raises the same. -/
  | merge {s : JoinedSubprocess} {f k : FlowId} {p q : PlaceId} {t : TransitionId} :
    P.sub s → c.flowPlaces.lookup f = some p → Raising g f s.id → c.flowPlaces.lookup k = some q →
    Raising g k s.id → Arc.output t q ∈ c.net.arcs → Laid g P c (.output t p)
  /-- To a place that the transition does not take from. -/
  | reset {p : PlaceId} {t : TransitionId} : Arc.input p t ∉ c.net.arcs → Laid g P c (.reset p t)

/-- One stitch. -/
inductive Stitch (g : ProcessGraph) (P : Permit) (c : Construction) : Construction → Prop
  | step (w : Way) {x : Transition} {inputs outputs : List PlaceId} {t : TransitionId} {n : Net} :
    P.way w → w.Fits g → w.IsStep g x → (w.isSilent → x.label = none) → inputs ≠ [] →
    (∀ p ∈ inputs, ∃ f, c.flowPlaces.lookup f = some p ∧ w.Takes g f) →
    (∀ p ∈ outputs, ∃ f, c.flowPlaces.lookup f = some p ∧ w.Gives g f) →
    StepAdded c.net x inputs outputs t n → Stitch g P c { c with net := n }
  | event {s : JoinedSubprocess} {m : NodeId} {x : Transition} {t : TransitionId} {n : Net} :
    P.sub s → m ∈ g.boundaryEventsOf s.id → x.name = boundaryName (g.node m).id s.parent →
    x.process = s.parent → TransitionAdded c.net x t n → Stitch g P c { c with net := n }
  | gate {s : JoinedSubprocess} {x : Place} {p : PlaceId} {n : Net} :
    P.sub s → x.role = .boundaryGate → x.process = s.id → p = c.net.places.next →
    PlaceAdded c.net x p n → Stitch g P c { c with net := n }
  | arc {a : Arc} {n : Net} : Laid g P c a → Extended c.net (· = a) n →
    Stitch g P c { c with net := n }
  | drop {s : JoinedSubprocess} {f : FlowId} {p : PlaceId} {n : Net} :
    P.sub s → c.flowPlaces.lookup f = some p → Raising g f s.id →
    (∀ t, Arc.input p t ∉ c.net.arcs) → PlaceGone c.net p n → Stitch g P c { c with net := n }
  | absorb (s : JoinedSubprocess) : P.absorbs → Stitch g P c (absorbed s c)
  | mark {f : FlowId} {p : PlaceId} {m : Marking} : c.flowPlaces.lookup f = some p →
    (g.node (g.flow f).source).process = g.processId → c.initial.add p 1 = .ok m →
    Stitch g P c { c with initial := m }
  | finish (p : PlaceId) : Stitch g P c { c with final := c.final.set p 1 }

/-- Any number of stitches, each of which leaves a valid construction. -/
def Stitches (g : ProcessGraph) (P : Permit) : Construction → Construction → Prop :=
  Relation.ReflTransGen fun c c' => Stitch g P c c' ∧ c'.Valid

theorem Stitches.of (h : Stitch g P c c') (hc : c'.Valid) : Stitches g P c c' := .single ⟨h, hc⟩

theorem Stitches.trans {c₁ c₂ c₃ : Construction} (h : Stitches g P c₁ c₂) (k : Stitches g P c₂ c₃) :
    Stitches g P c₁ c₃ :=
  Relation.ReflTransGen.trans h k

theorem Stitches.valid (h : Stitches g P c c') (hc : c.Valid) : c'.Valid := by
  induction h with
  | refl => exact hc
  | tail _ hs _ => exact hs.2

theorem Laid.mono {P' : Permit} {a : Arc} (h : Laid g P c a) (hsub : ∀ s, P.sub s → P'.sub s) :
    Laid g P' c a := by
  cases h with
  | leave hs hm ht hf hsource hnone => exact .leave (hsub _ hs) hm ht hf hsource hnone
  | «catch» hs hf hr hsole hnone hout hunreset =>
    exact .catch (hsub _ hs) hf hr hsole hnone hout hunreset
  | opens hs hx hrole hprocess hnone => exact .opens (hsub _ hs) hx hrole hprocess hnone
  | closes hs hp ht hunreset => exact .closes (hsub _ hs) hp ht hunreset
  | merge hs hf hr hk hr' ha => exact .merge (hsub _ hs) hf hr hk hr' ha
  | reset hnot => exact .reset hnot

theorem Stitch.mono {P' : Permit} (h : Stitch g P c c') (hway : ∀ w, P.way w → P'.way w)
    (hsub : ∀ s, P.sub s → P'.sub s) (habsorbs : P.absorbs → P'.absorbs) : Stitch g P' c c' := by
  cases h with
  | step w hw hfits hstep hlabel hne hin hout hadd =>
    exact .step w (hway w hw) hfits hstep hlabel hne hin hout hadd
  | event hs hm hname hprocess hadd => exact .event (hsub _ hs) hm hname hprocess hadd
  | gate hs hrole hprocess hp hadd => exact .gate (hsub _ hs) hrole hprocess hp hadd
  | arc ha hadd => exact .arc (ha.mono hsub) hadd
  | drop hs hf hr hnone hgone => exact .drop (hsub _ hs) hf hr hnone hgone
  | absorb s hs => exact .absorb s (habsorbs hs)
  | mark hf hsource hm => exact .mark hf hsource hm
  | finish p => exact .finish p

theorem Stitches.mono {P' : Permit} (h : Stitches g P c c') (hway : ∀ w, P.way w → P'.way w)
    (hsub : ∀ s, P.sub s → P'.sub s) (habsorbs : P.absorbs → P'.absorbs) : Stitches g P' c c' := by
  induction h with
  | refl => exact .refl
  | tail _ hs ih => exact .tail ih ⟨hs.1.mono hway hsub habsorbs, hs.2⟩

/-! ## What lasts -/

theorem Stitch.flowPlaces (h : Stitch g P c c') : c'.flowPlaces = c.flowPlaces := by
  cases h <;> rfl

theorem Stitches.flowPlaces (h : Stitches g P c c') : c'.flowPlaces = c.flowPlaces := by
  induction h with
  | refl => rfl
  | tail _ hs ih => exact hs.1.flowPlaces.trans ih

theorem Stitch.rootSink (h : Stitch g P c c') : c'.rootSink = c.rootSink := by
  cases h <;> rfl

theorem Stitches.rootSink (h : Stitches g P c c') : c'.rootSink = c.rootSink := by
  induction h with
  | refl => rfl
  | tail _ hs ih => exact hs.1.rootSink.trans ih

/-- Transitions are kept with their names and labels. -/
theorem Stitch.transition? (h : Stitch g P c c') {x : Transition}
    (hx : c.net.transition? t = some x) :
    ∃ x', c'.net.transition? t = some x' ∧ x'.name = x.name ∧ x'.label = x.label := by
  cases h with
  | step w _ _ _ _ _ _ _ hadd => exact ⟨x, hadd.transition?_kept hx, rfl, rfl⟩
  | event _ _ _ _ hadd => exact ⟨x, hadd.transition?_kept hx, rfl, rfl⟩
  | gate _ _ _ _ hadd => exact ⟨x, (hadd.transition? t).trans hx, rfl, rfl⟩
  | arc _ hadd => exact ⟨x, (hadd.nodes.transition? t).trans hx, rfl, rfl⟩
  | drop _ _ _ _ hgone => exact ⟨x, (hgone.transition? t).trans hx, rfl, rfl⟩
  | absorb s =>
    refine ⟨_, (transition?_mapNodes t).trans (congrArg _ hx), ?_, ?_⟩
    · dsimp only
      split <;> rfl
    · dsimp only
      split <;> rfl
  | mark | finish => exact ⟨x, hx, rfl, rfl⟩

theorem Stitches.bears {name : String} (h : Stitches g P c c') (ht : c.Bears t name) :
    c'.Bears t name := by
  induction h with
  | refl => exact ht
  | tail _ hs ih =>
    obtain ⟨x, hx, rfl⟩ := ih
    obtain ⟨x', hx', hname, _⟩ := hs.1.transition? hx
    exact ⟨x', hx', hname⟩

/-- No input arc is ever removed: a place that is removed has none. -/
theorem Stitch.input_kept (h : Stitch g P c c') (ha : Arc.input p t ∈ c.net.arcs) :
    Arc.input p t ∈ c'.net.arcs := by
  cases h with
  | step w _ _ _ _ _ _ _ hadd => exact (hadd.mem_arcs _).2 (.inr (.inr ha))
  | event _ _ _ _ hadd => exact hadd.arcs ▸ ha
  | gate _ _ _ _ hadd => exact hadd.arcs ▸ ha
  | arc _ hadd => exact (hadd.mem_arcs _).2 (.inr ha)
  | drop _ _ _ hnone hgone =>
    refine (hgone.mem_arcs _).2 ⟨ha, ?_⟩
    rintro rfl
    exact hnone _ ha
  | absorb | mark | finish => exact ha

theorem Stitches.input_kept (h : Stitches g P c c') (ha : Arc.input p t ∈ c.net.arcs) :
    Arc.input p t ∈ c'.net.arcs := by
  induction h with
  | refl => exact ha
  | tail _ hs ih => exact hs.1.input_kept ih

/-- A live place was live before with the same role, unless it is a new gate; its process changes only
where a subprocess is handed over. -/
theorem Stitch.place_back (h : Stitch g P c c') {x' : Place} (hx : c'.net.place? p = some x') :
    (∃ x, c.net.place? p = some x ∧ x'.role = x.role ∧ (¬ P.absorbs → x' = x)) ∨
      (p = c.net.places.next ∧ c.net.hasPlace p = false ∧ x'.role = .boundaryGate ∧
        c'.net.arcs = c.net.arcs ∧ ∃ s, P.sub s ∧ x'.process = s.id) := by
  cases h with
  | step w _ _ _ _ _ _ _ hadd => exact .inl ⟨x', by rw [← hadd.place?, hx], rfl, fun _ => rfl⟩
  | event _ _ _ _ hadd => exact .inl ⟨x', by rw [← hadd.place?, hx], rfl, fun _ => rfl⟩
  | gate hs hrole hprocess hp hadd =>
    have hplace := hx
    rw [hadd.place?] at hplace
    split at hplace
    · rename_i hpq
      cases hplace
      exact .inr ⟨hpq.trans hp, hpq ▸ hadd.fresh, hrole, hadd.arcs, _, hs, hprocess⟩
    · exact .inl ⟨x', hplace, rfl, fun _ => rfl⟩
  | arc _ hadd => exact .inl ⟨x', by rw [← hadd.nodes.place?, hx], rfl, fun _ => rfl⟩
  | drop _ _ _ _ hgone =>
    rw [hgone.place?] at hx
    split at hx
    · cases hx
    · exact .inl ⟨x', hx, rfl, fun _ => rfl⟩
  | absorb s hs =>
    obtain ⟨x, hold, rfl⟩ := Option.map_eq_some_iff.1 ((place?_mapNodes p).symm.trans hx)
    refine .inl ⟨x, hold, ?_, fun hnot => absurd hs hnot⟩
    split <;> rfl
  | mark | finish => exact .inl ⟨x', hx, rfl, fun _ => rfl⟩

/-- An arc goes only where its place is removed. -/
theorem Stitch.arc_kept (h : Stitch g P c c') {a : Arc} (ha : a ∈ c.net.arcs) :
    a ∈ c'.net.arcs ∨
      ∃ f, c.flowPlaces.lookup f = some a.place ∧ c'.net.hasPlace a.place = false := by
  cases h with
  | step w _ _ _ _ _ _ _ hadd => exact .inl ((hadd.mem_arcs _).2 (.inr (.inr ha)))
  | event _ _ _ _ hadd => exact .inl (hadd.arcs ▸ ha)
  | gate _ _ _ _ hadd => exact .inl (hadd.arcs ▸ ha)
  | arc _ hadd => exact .inl ((hadd.mem_arcs _).2 (.inr ha))
  | @drop s f p n _ hf _ _ hgone =>
    by_cases hp : a.place = p
    · refine .inr ⟨f, hp ▸ hf, ?_⟩
      rw [Net.hasPlace, hgone.place?, if_pos hp]
      rfl
    · exact .inl ((hgone.mem_arcs _).2 ⟨ha, hp⟩)
  | absorb | mark | finish => exact .inl ha

/-- Where nothing is done for subprocesses, and none is handed over, the places stay as they are. -/
theorem Stitch.place?_eq (h : Stitch g P c c') (hsub : ∀ s, ¬ P.sub s) (habsorbs : ¬ P.absorbs)
    (p : PlaceId) : c'.net.place? p = c.net.place? p := by
  cases h with
  | step w _ _ _ _ _ _ _ hadd => exact hadd.place? p
  | arc _ hadd => exact hadd.nodes.place? p
  | event hs | gate hs | drop hs => exact absurd hs (hsub _)
  | absorb s hs => exact absurd hs habsorbs
  | mark | finish => rfl

theorem Stitches.place?_eq (h : Stitches g P c c') (hsub : ∀ s, ¬ P.sub s) (habsorbs : ¬ P.absorbs)
    (p : PlaceId) : c'.net.place? p = c.net.place? p := by
  induction h with
  | refl => rfl
  | tail _ hs ih => exact (hs.1.place?_eq hsub habsorbs p).trans ih

/-! ## Sound constructions -/

/-- What is known of a construction whose flows have their places. -/
structure Sound (g : ProcessGraph) (c : Construction) : Prop where
  valid : c.Valid
  bound : ∀ f p, c.flowPlaces.lookup f = some p → index f < g.flows.size
  shared : ∀ f k p, c.flowPlaces.lookup f = some p → c.flowPlaces.lookup k = some p →
    f = k ∨ (entersRootEnd g (g.flow f) ∧ entersRootEnd g (g.flow k))
  sink : ∀ p, c.rootSink = some p →
    ∃ f, c.flowPlaces.lookup f = some p ∧ entersRootEnd g (g.flow f)
  plain : ∀ f p, c.flowPlaces.lookup f = some p → ¬ IsGate c p
  /-- Of the ends that raise the same only one has a consumer, and then no other is left. -/
  sole : ∀ f p t, c.flowPlaces.lookup f = some p → Raising g f (g.node (g.flow f).target).process →
    Arc.input p t ∈ c.net.arcs → ∀ k q, c.flowPlaces.lookup k = some q → SameEnd g f k →
    c.net.hasPlace q → q = p
  opened : ∀ p t u, IsGate c p → Arc.output t p ∈ c.net.arcs → Arc.output u p ∈ c.net.arcs → u = t

theorem kind_of_entersRootEnd (h : entersRootEnd g (g.flow f)) :
    (g.node (g.flow f).target).kind = .endEvent .normal ∧
      (g.node (g.flow f).target).process = g.processId := by
  simp only [entersRootEnd, isRoot, Bool.and_eq_true, decide_eq_true_eq] at h
  exact ⟨h.1.2, h.2⟩

/-- A place is that of one flow, unless it is the sink. -/
theorem Sound.eq_of_kind (hs : Sound g c) (hf : c.flowPlaces.lookup f = some p)
    (hk : c.flowPlaces.lookup k = some p)
    (hkind : (g.node (g.flow f).target).kind ≠ .endEvent .normal) : k = f := by
  rcases hs.shared f k p hf hk with he | ⟨hroot, _⟩
  · exact he.symm
  · exact absurd (kind_of_entersRootEnd hroot).1 hkind

theorem Raising.ne_normal {process : String} (h : Raising g f process) :
    (g.node (g.flow f).target).kind ≠ .endEvent .normal := by
  obtain ⟨_, trigger, hinternal, hkind⟩ := h
  rw [hkind]
  cases trigger <;> simp_all [BoundaryTrigger.isInternal, BoundaryTrigger.endTrigger]

/-- No step takes a token from an end that raises something. -/
theorem Way.not_takes {process : String} {w : Way} (hw : w.Fits g) (h : Raising g f process) :
    ¬ w.Takes g f := by
  obtain ⟨_, trigger, hinternal, hkind⟩ := h
  intro htakes
  cases w with
  | through n =>
    rw [Takes] at htakes
    rw [Fits, ← htakes, hkind] at hw
    exact hw
  | aside task event =>
    rw [Takes] at htakes
    rw [Fits, ← htakes, hkind] at hw
    cases hw.1
  | into n =>
    rw [Takes] at htakes
    rw [Fits, ← htakes, hkind] at hw
    cases hw
  | outOf n =>
    have hnormal := htakes.2
    rw [hkind] at hnormal
    cases trigger <;> simp_all [BoundaryTrigger.isInternal, BoundaryTrigger.endTrigger]
  | skip n =>
    have hterminate := htakes.2
    rw [hkind] at hterminate
    cases trigger <;> simp_all [BoundaryTrigger.endTrigger]
  | stop =>
    have hterminate := htakes.2
    rw [hkind] at hterminate
    cases trigger <;> simp_all [BoundaryTrigger.endTrigger]

theorem Stitch.isGate_back (h : Stitch g P c c') (hp : IsGate c' p) :
    IsGate c p ∨ (p = c.net.places.next ∧ c.net.hasPlace p = false ∧ c'.net.arcs = c.net.arcs) := by
  obtain ⟨x', hx', hrole⟩ := hp
  rcases h.place_back hx' with ⟨x, hx, he, _⟩ | ⟨hnext, hfresh, _, harcs, _⟩
  · exact .inl ⟨x, hx, he ▸ hrole⟩
  · exact .inr ⟨hnext, hfresh, harcs⟩

/-- A place of a flow that is live was live before. -/
theorem Stitch.live_back (h : Stitch g P c c') (hc : c.Valid)
    (hf : c.flowPlaces.lookup f = some p) (hlive : c'.net.hasPlace p) : c.net.hasPlace p := by
  obtain ⟨x', hx'⟩ := hasPlace_iff.1 hlive
  rcases h.place_back hx' with ⟨x, hx, _⟩ | ⟨hnext, _⟩
  · exact hasPlace_iff.2 ⟨x, hx⟩
  · exact absurd hnext (Arena.ne_next_of_lt (hc.flows f p hf))

theorem Stitches.live_back (h : Stitches g P c c') (hc : c.Valid)
    (hf : c.flowPlaces.lookup f = some p) (hlive : c'.net.hasPlace p) : c.net.hasPlace p := by
  induction h with
  | refl => exact hlive
  | tail h₁ hs ih =>
    exact ih (hs.1.live_back (Stitches.valid h₁ hc) (Stitches.flowPlaces h₁ ▸ hf) hlive)

theorem Stitches.arc_kept_or (h : Stitches g P c c') (hc : c.Valid) {a : Arc}
    (ha : a ∈ c.net.arcs) :
    a ∈ c'.net.arcs ∨
      ∃ f, c'.flowPlaces.lookup f = some a.place ∧ c'.net.hasPlace a.place = false := by
  induction h with
  | refl => exact .inl ha
  | @tail c₁ c₂ h₁ hs ih =>
    have hlookup := hs.1.flowPlaces
    rcases ih with ha₁ | ⟨f, hf, hdead⟩
    · rcases hs.1.arc_kept ha₁ with ha₂ | ⟨f, hf, hdead⟩
      · exact .inl ha₂
      · exact .inr ⟨f, hlookup ▸ hf, hdead⟩
    · refine .inr ⟨f, hlookup ▸ hf, Bool.eq_false_iff.2 fun hlive => ?_⟩
      rw [hs.1.live_back (Stitches.valid h₁ hc) hf hlive] at hdead
      cases hdead

/-- An arc at a place that is still live is still there. -/
theorem Stitches.arc_kept (h : Stitches g P c c') (hc : c.Valid) {a : Arc} (ha : a ∈ c.net.arcs)
    (hlive : c'.net.hasPlace a.place) : a ∈ c'.net.arcs := by
  rcases h.arc_kept_or hc ha with ha | ⟨_, _, hdead⟩
  · exact ha
  · rw [hlive] at hdead
    cases hdead

/-- Why there is a new input arc after a stitch. -/
inductive NewInput (g : ProcessGraph) (P : Permit) (c c' : Construction) (p : PlaceId)
    (t : TransitionId) : Prop
  | step (w : Way) {f : FlowId} {x : Transition} : P.way w → w.Fits g →
    (w.isSilent → x.label = none) → c.flowPlaces.lookup f = some p → w.Takes g f →
    c.net.hasTransition t = false → c'.net.transition? t = some x →
    (∀ q, Arc.output t q ∈ c'.net.arcs → Arc.output t q ∈ c.net.arcs ∨
      ∃ k, c.flowPlaces.lookup k = some q ∧ w.Gives g k) → NewInput g P c c' p t
  | catch {s : JoinedSubprocess} {f : FlowId} : P.sub s → c.flowPlaces.lookup f = some p →
    Raising g f s.id →
    (∀ k q, c.flowPlaces.lookup k = some q → SameEnd g f k → c'.net.hasPlace q → q = p) →
    (∀ q, Arc.input q t ∉ c.net.arcs) →
    (∀ q, Arc.output t q ∈ c'.net.arcs → ∃ k, c.flowPlaces.lookup k = some q ∧ Escapes g c s k) →
    NewInput g P c c' p t
  | closes {s : JoinedSubprocess} : P.sub s → IsGate c p →
    t ∈ s.exits ∨ (∀ q, Arc.input q t ∉ c.net.arcs) → NewInput g P c c' p t

theorem Stitch.input_back (h : Stitch g P c c') (ha : Arc.input p t ∈ c'.net.arcs) :
    Arc.input p t ∈ c.net.arcs ∨ NewInput g P c c' p t := by
  cases h with
  | step w hw hfits _ hlabel _ hin hout hadd =>
    rcases (hadd.mem_arcs _).1 ha with ⟨q, hq, he⟩ | ⟨_, _, he⟩ | hold
    · cases he
      obtain ⟨f, hf, htakes⟩ := hin p hq
      refine .inr (.step w hw hfits hlabel hf htakes hadd.fresh
        hadd.transition?_self fun r hr => ?_)
      rcases (hadd.mem_arcs _).1 hr with ⟨_, _, he⟩ | ⟨_, hq, he⟩ | hold
      · cases he
      · cases he
        exact .inr (hout r hq)
      · exact .inl hold
    · cases he
    · exact .inl hold
  | event _ _ _ _ hadd => exact .inl (hadd.arcs ▸ ha)
  | gate _ _ _ _ hadd => exact .inl (hadd.arcs ▸ ha)
  | arc hlaid hadd =>
    rcases (hadd.mem_arcs _).1 ha with rfl | hold
    · cases hlaid with
      | «catch» hs hf hraising hsole hnone hout _ =>
        refine .inr (.catch hs hf hraising (fun k q hk hsame hlive => ?_) hnone fun q hq => hout q ?_)
        · exact hsole k q hk hsame (by rwa [hadd.nodes.hasPlace] at hlive)
        · rcases (hadd.mem_arcs _).1 hq with he | hq
          · cases he
          · exact hq
      | closes hs hp ht _ => exact .inr (.closes hs hp ht)
    · exact .inl hold
  | drop _ _ _ _ hgone => exact .inl ((hgone.mem_arcs _).1 ha).1
  | absorb | mark | finish => exact .inl ha

/-- Why there is a new output arc after a stitch. -/
inductive NewOutput (g : ProcessGraph) (P : Permit) (c c' : Construction) (t : TransitionId)
    (p : PlaceId) : Prop
  | step (w : Way) {f k : FlowId} {x : Transition} {q : PlaceId} : P.way w → w.Fits g →
    w.Named g x.name → c'.net.transition? t = some x → c.net.hasTransition t = false →
    c.flowPlaces.lookup f = some p → w.Gives g f →
    c.flowPlaces.lookup k = some q → w.Takes g k → Arc.input q t ∈ c'.net.arcs →
    NewOutput g P c c' t p
  | leave {s : JoinedSubprocess} {m : NodeId} {f : FlowId} : P.sub s → m ∈ g.boundaryEventsOf s.id →
    c.Bears t (boundaryName (g.node m).id s.parent) → c.flowPlaces.lookup f = some p →
    (g.flow f).source = m → (∀ q, Arc.input q t ∉ c.net.arcs) → NewOutput g P c c' t p
  | opens {s : JoinedSubprocess} {x : Place} : P.sub s → t = s.enter → c.net.place? p = some x →
    x.role = .boundaryGate → x.process = s.id → (∀ u, Arc.output u p ∉ c.net.arcs) →
    (∀ u, Arc.output u p ∈ c'.net.arcs → u = t) → NewOutput g P c c' t p
  | merge {s : JoinedSubprocess} {f k : FlowId} {q : PlaceId} : P.sub s →
    c.flowPlaces.lookup f = some p → Raising g f s.id → c.flowPlaces.lookup k = some q →
    Raising g k s.id → Arc.output t q ∈ c.net.arcs → NewOutput g P c c' t p

theorem Stitch.output_back (h : Stitch g P c c') (ha : Arc.output t p ∈ c'.net.arcs) :
    Arc.output t p ∈ c.net.arcs ∨ NewOutput g P c c' t p := by
  cases h with
  | step w hw hfits hstep _ hne hin hout hadd =>
    rcases (hadd.mem_arcs _).1 ha with ⟨_, _, he⟩ | ⟨q, hq, he⟩ | hold
    · cases he
    · cases he
      obtain ⟨f, hf, hgives⟩ := hout p hq
      obtain ⟨q, hq⟩ := List.exists_mem_of_ne_nil _ hne
      obtain ⟨k, hk, htakes⟩ := hin q hq
      exact .inr (.step w hw hfits hstep.name hadd.transition?_self hadd.fresh hf
        hgives hk htakes ((hadd.mem_arcs _).2 (.inl ⟨q, hq, rfl⟩)))
    · exact .inl hold
  | event _ _ _ _ hadd => exact .inl (hadd.arcs ▸ ha)
  | gate _ _ _ _ hadd => exact .inl (hadd.arcs ▸ ha)
  | arc hlaid hadd =>
    rcases (hadd.mem_arcs _).1 ha with rfl | hold
    · cases hlaid with
      | leave hs hm ht hf hsource hnone => exact .inr (.leave hs hm ht hf hsource hnone)
      | opens hs hx hrole hprocess hnone =>
        refine .inr (.opens hs rfl hx hrole hprocess hnone fun u hu => ?_)
        rcases (hadd.mem_arcs _).1 hu with he | hold
        · cases he
          rfl
        · exact absurd hold (hnone u)
      | merge hs hf hr hk hr' ha => exact .inr (.merge hs hf hr hk hr' ha)
    · exact .inl hold
  | drop _ _ _ _ hgone => exact .inl ((hgone.mem_arcs _).1 ha).1
  | absorb | mark | finish => exact .inl ha

theorem Stitch.sound (h : Stitch g P c c') (hc : c'.Valid) (hs : Sound g c) : Sound g c' := by
  have hlookup := h.flowPlaces
  refine {
    valid := hc
    bound := ?bound
    shared := ?shared
    sink := ?sink
    plain := fun f p hf hp => ?plain
    sole := fun f p t hf hr ha k q hk hsame hlive => ?sole
    opened := fun p t u hp ht hu => ?opened }
  case bound =>
    rw [hlookup]
    exact hs.bound
  case shared =>
    rw [hlookup]
    exact hs.shared
  case sink =>
    rw [h.rootSink, hlookup]
    exact hs.sink
  case plain =>
    rw [hlookup] at hf
    rcases h.isGate_back hp with hgate | ⟨hnext, _⟩
    · exact hs.plain f p hf hgate
    · exact absurd hnext (Arena.ne_next_of_lt (hs.valid.flows f p hf))
  case sole =>
    rw [hlookup] at hf hk
    rcases h.input_back ha with ha | hnew
    · exact hs.sole f p t hf hr ha k q hk hsame (h.live_back hs.valid hk hlive)
    · cases hnew with
      | step w _ hfits _ hj htakes =>
        have hjf := hs.eq_of_kind hf hj hr.ne_normal
        exact absurd (hjf ▸ htakes) (Way.not_takes hfits hr)
      | «catch» _ hj _ hsole =>
        have hjf := hs.eq_of_kind hf hj hr.ne_normal
        exact hsole k q hk (hjf ▸ hsame) hlive
      | closes _ hgate => exact absurd hgate (hs.plain f p hf)
  case opened =>
    rcases h.isGate_back hp with hp | ⟨_, hp, harcs⟩
    · have hnot : ∀ f, c.flowPlaces.lookup f ≠ some p := fun f hf => hs.plain f p hf hp
      -- Only an entry can be led into a gate, and only where nothing else is.
      have hnew : ∀ t, NewOutput g P c c' t p → ∀ u, Arc.output u p ∈ c'.net.arcs → u = t := by
        intro t hnew
        cases hnew with
        | step _ _ _ _ _ _ hf => exact absurd hf (hnot _)
        | leave _ _ _ hf => exact absurd hf (hnot _)
        | opens _ _ _ _ _ _ hsole => exact hsole
        | merge _ hf => exact absurd hf (hnot _)
      rcases h.output_back ht with ht' | ht'
      · rcases h.output_back hu with hu' | hu'
        · exact hs.opened p t u hp ht' hu'
        · exact (hnew u hu' t ht).symm
      · exact hnew t ht' u hu
    · rw [harcs] at ht
      exact absurd rfl (hs.valid.consistent.place_ne hp ht)

theorem Stitches.sound (h : Stitches g P c c') (hs : Sound g c) : Sound g c' := by
  induction h with
  | refl => exact hs
  | tail _ hstep ih => exact hstep.1.sound hstep.2 ih

/-! ## What later stitches spare -/

/-- Gates are never removed. -/
theorem Stitch.isGate (h : Stitch g P c c') (hs : Sound g c) (hp : IsGate c p) : IsGate c' p := by
  obtain ⟨x, hx, hrole⟩ := hp
  cases h with
  | step w _ _ _ _ _ _ _ hadd => exact ⟨x, (hadd.place? p).trans hx, hrole⟩
  | event _ _ _ _ hadd => exact ⟨x, (hadd.place? p).trans hx, hrole⟩
  | gate _ _ _ _ hadd => exact ⟨x, hadd.place?_kept hx, hrole⟩
  | arc _ hadd => exact ⟨x, (hadd.nodes.place? p).trans hx, hrole⟩
  | drop _ hf _ _ hgone =>
    refine ⟨x, ?_, hrole⟩
    rw [hgone.place?, if_neg, hx]
    rintro rfl
    exact hs.plain _ p hf ⟨x, hx, hrole⟩
  | absorb s =>
    refine ⟨_, (place?_mapNodes p).trans (congrArg _ hx), ?_⟩
    dsimp only
    split <;> exact hrole
  | mark | finish => exact ⟨x, hx, hrole⟩

theorem Stitches.isGate (h : Stitches g P c c') (hs : Sound g c) (hp : IsGate c p) : IsGate c' p := by
  induction h with
  | refl => exact hp
  | tail h₁ hstep ih => exact hstep.1.isGate (Stitches.sound h₁ hs) ih

/-- Nothing that is permitted leads to the flow: neither a way nor an event, and it enters no end that
others are merged with. -/
structure Spares (g : ProcessGraph) (P : Permit) (f : FlowId) : Prop where
  way : ∀ w, P.way w → w.Fits g → ¬ w.Gives g f
  event : ∀ s, P.sub s → (g.flow f).source ∉ g.boundaryEventsOf s.id
  raising : ∀ s, P.sub s → ¬ Raising g f s.id

theorem Stitch.output_spared (h : Stitch g P c c') (hs : Sound g c)
    (hf : c.flowPlaces.lookup f = some p) (hsole : ∀ k, c.flowPlaces.lookup k = some p → k = f)
    (hspares : Spares g P f) (ha : Arc.output t p ∈ c'.net.arcs) : Arc.output t p ∈ c.net.arcs := by
  rcases h.output_back ha with ha | hnew
  · exact ha
  · cases hnew with
    | step w hw hfits _ _ _ hk hgives => exact absurd (hsole _ hk ▸ hgives) (hspares.way w hw hfits)
    | leave hsub hm _ hk hsource => exact absurd (hsole _ hk ▸ hsource ▸ hm) (hspares.event _ hsub)
    | opens _ _ hx hrole => exact absurd ⟨_, hx, hrole⟩ (hs.plain f p hf)
    | merge hsub hk hraising => exact absurd (hsole _ hk ▸ hraising) (hspares.raising _ hsub)

theorem Stitches.output_spared (h : Stitches g P c c') (hs : Sound g c)
    (hf : c.flowPlaces.lookup f = some p) (hsole : ∀ k, c.flowPlaces.lookup k = some p → k = f)
    (hspares : Spares g P f) (ha : Arc.output t p ∈ c'.net.arcs) : Arc.output t p ∈ c.net.arcs := by
  induction h with
  | refl => exact ha
  | tail h₁ hstep ih =>
    have hflows := Stitches.flowPlaces h₁
    exact ih (hstep.1.output_spared (Stitches.sound h₁ hs) (hflows ▸ hf) (hflows ▸ hsole) hspares ha)

end ProcessNet.Construction
