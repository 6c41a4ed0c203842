/-
What a construction has built so far, kept as a ledger: the place of each flow, the gates, and the steps that
the live transitions do, in their order. An addition that succeeds appends its steps to the ledger and
leaves what is written there as it is.
-/
import ProcessNet.Proofs.Conversion.Catalogue

namespace ProcessNet

namespace Arena

variable {ι α : Type} [Identifier ι]

theorem entries_push (a : Arena ι α) (x : α) : (a.push x).entries = a.entries ++ [(a.next, x)] := by
  simp [entries, push, next, List.zipIdx_append]

theorem entries_mapEntries (a : Arena ι α) (f : α → α) :
    (a.mapEntries fun _ x => f x).entries = a.entries.map fun e => (e.1, f e.2) := by
  simp only [entries, mapEntries]
  refine List.ext_getElem (by simp) fun i h₁ h₂ => ?_
  simp

theorem size_mapEntries (a : Arena ι α) (f : ι → α → α) : (a.mapEntries f).size = a.size := by
  simp [size, mapEntries]

end Arena

namespace Net

variable {n n' : Net} {t : TransitionId} {x : Transition}

theorem SameNodes.liveTransitions (h : SameNodes n n') : n'.liveTransitions = n.liveTransitions := by
  rw [Net.liveTransitions, Net.liveTransitions, h.transitions]

theorem liveTransitions_addTransition (h : n.addTransition x = .ok (n', t)) :
    n'.liveTransitions = n.liveTransitions ++ [(t, x)] := by
  obtain ⟨_, rfl, rfl⟩ := addTransition_eq_ok h
  simp [liveTransitions, Arena.entries_push]

theorem liveTransitions_mapNodes (f : Place → Place) (h : Transition → Transition) :
    (n.mapNodes f h).liveTransitions = n.liveTransitions.map fun e => (e.1, h e.2) := by
  rw [liveTransitions, liveTransitions, mapNodes, Arena.entries_mapEntries, List.filterMap_map,
    List.map_filterMap]
  refine List.filterMap_congr fun e _ => ?_
  obtain ⟨t, slot⟩ := e
  cases slot <;> rfl

end Net

namespace Construction

open Identifier Net ProcessGraph

variable {g : ProcessGraph} {c c' : Construction} {f k : FlowId} {p q : PlaceId} {t : TransitionId}
  {done : List String} {gates : Nat} {steps T T' : List Step} {place : FlowId → PlaceId}

/-! ## The places of flows -/

/-- Both flows enter ends that raise the same event on one of the subprocesses. -/
def Merged (g : ProcessGraph) (done : List String) (f k : FlowId) : Prop :=
  ∃ id ∈ done, ∃ m ∈ g.boundaryEventsOf id,
    f ∈ g.raisingFlows id (g.node m) ∧ k ∈ g.raisingFlows id (g.node m)

/-- The flows have one place: they share the sink, or their ends are merged. -/
def Coincide (g : ProcessGraph) (done : List String) (f k : FlowId) : Prop :=
  f = k ∨ (entersRootEnd g (g.flow f) ∧ entersRootEnd g (g.flow k)) ∨ Merged g done f k

/-- Every live place other than a gate is that of a flow, and bears the name of one. A flow that had its
place merged into another has that one, and what is done for subprocesses is only that. -/
structure Lodged (g : ProcessGraph) (done : List String) (gates : Nat) (place : FlowId → PlaceId)
    (c : Construction) : Prop where
  found : ∀ f p, c.flowPlaces.lookup f = some p → c.net.hasPlace p → place f = p
  live : ∀ f, index f < g.flows.size → c.net.hasPlace (place f) ∧ ¬ IsGate c (place f)
  flow : ∀ p x, c.net.place? p = some x → x.role ≠ .boundaryGate → ∃ f,
    c.flowPlaces.lookup f = some p ∧ x.name = flowPlaceName (flowRole g (g.flow f)) (g.flow f)
  same : ∀ f k, index f < g.flows.size → index k < g.flows.size → place f = place k →
    Coincide g done f k
  lost : ∀ f p, c.flowPlaces.lookup f = some p → c.net.hasPlace p = false → ∃ k, Merged g done f k
  gates : ∃ ps : List PlaceId, ps.Nodup ∧ ps.length = gates ∧ ∀ p, p ∈ ps ↔ IsGate c p

theorem isGate_iff_of_place? (h : ∀ p, c'.net.place? p = c.net.place? p) : IsGate c' p ↔ IsGate c p := by
  rw [IsGate, IsGate, h]

theorem Lodged.kept (h : Lodged g done gates place c) (hplace : ∀ p, c'.net.place? p = c.net.place? p)
    (hflows : c'.flowPlaces = c.flowPlaces) : Lodged g done gates place c' := by
  have hlive : ∀ p, c'.net.hasPlace p = c.net.hasPlace p := fun p => by
    rw [Net.hasPlace, Net.hasPlace, hplace]
  obtain ⟨hfound, hliving, hflow, hsame, hlost, hgates⟩ := h
  refine {
    found := ?found
    live := ?live
    flow := ?flow
    same := hsame
    lost := ?lost
    gates := ?gates }
  case found =>
    simpa only [hflows, hlive] using hfound
  case live =>
    simpa only [hlive, isGate_iff_of_place? hplace] using hliving
  case flow =>
    simpa only [hflows, hplace] using hflow
  case lost =>
    simpa only [hflows, hlive] using hlost
  case gates =>
    simpa only [isGate_iff_of_place? hplace] using hgates

/-- The live place of a flow is that of a flow that was not merged. -/
theorem Lodged.exists_lookup (h : Lodged g done gates place c) (hf : index f < g.flows.size) :
    ∃ k, c.flowPlaces.lookup k = some (place f) := by
  obtain ⟨hlive, hgate⟩ := h.live f hf
  obtain ⟨x, hx⟩ := hasPlace_iff.1 hlive
  obtain ⟨k, hk, _⟩ := h.flow _ x hx fun hrole => hgate ⟨x, hx, hrole⟩
  exact ⟨k, hk⟩

/-! ## The steps of transitions -/

/-- The live transition does the step. Gates are left out, since they are no places of flows. -/
structure Does (c : Construction) (place : FlowId → PlaceId) (s : Step) (e : TransitionId × Transition) :
    Prop where
  live : c.net.transition? e.1 = some e.2
  name : e.2.name = s.name
  label : e.2.label = s.label
  takes : ∀ p, ¬ IsGate c p → (Arc.input p e.1 ∈ c.net.arcs ↔ ∃ f ∈ s.takes, place f = p)
  gives : ∀ p, ¬ IsGate c p → (Arc.output e.1 p ∈ c.net.arcs ↔ ∃ f ∈ s.gives, place f = p)

/-- A step stays done while the arcs of its transition stay, gates apart. -/
theorem Does.kept {s : Step} {e : TransitionId × Transition} {x : Transition} (h : Does c place s e)
    (hx : c'.net.transition? e.1 = some x) (hname : x.name = e.2.name) (hlabel : x.label = e.2.label)
    (hgate : ∀ p, IsGate c p → IsGate c' p)
    (harcs : ∀ a : Arc, a.transition = e.1 → a.kind.isNormal → ¬ IsGate c' a.place →
      (a ∈ c'.net.arcs ↔ a ∈ c.net.arcs)) : Does c' place s (e.1, x) where
  live := hx
  name := hname.trans h.name
  label := hlabel.trans h.label
  takes p hp := (harcs (.input p e.1) rfl rfl hp).trans (h.takes p fun hg => hp (hgate p hg))
  gives p hp := (harcs (.output e.1 p) rfl rfl hp).trans (h.gives p fun hg => hp (hgate p hg))

/-- The ledger of a construction: `done` are the subprocesses whose turn has come. -/
structure Ledger (g : ProcessGraph) (done : List String) (gates : Nat) (steps : List Step)
    (place : FlowId → PlaceId) (c : Construction) : Prop where
  consistent : c.net.Consistent
  lodged : Lodged g done gates place c
  listed : List.Forall₂ (Does c place) steps c.net.liveTransitions

/-- From `c` to `c'` the steps `T` are added to every ledger, and the flows keep what they were given. -/
def Books (g : ProcessGraph) (T : List Step) (c c' : Construction) : Prop :=
  ∀ done gates steps place, Ledger g done gates steps place c →
    Ledger g done gates (steps ++ T) place c' ∧ c'.flowPlaces = c.flowPlaces ∧ c'.rootSink = c.rootSink

theorem Books.refl (c : Construction) : Books g [] c c :=
  fun _ _ _ _ h => ⟨by rwa [List.append_nil], rfl, rfl⟩

theorem Books.trans {c₁ c₂ c₃ : Construction} (h : Books g T c₁ c₂)
    (k : c₂.flowPlaces = c₁.flowPlaces → c₂.rootSink = c₁.rootSink → Books g T' c₂ c₃) :
    Books g (T ++ T') c₁ c₃ := by
  intro done gates steps place hl
  obtain ⟨hl₂, hflows, hsink⟩ := h _ _ _ _ hl
  obtain ⟨hl₃, hflows', hsink'⟩ := k hflows hsink _ _ _ _ hl₂
  exact ⟨by rwa [← List.append_assoc], hflows'.trans hflows, hsink'.trans hsink⟩

section Loops

variable {α β γ : Type} {R : α → β → Prop} {T : α → List Step} {l : List α} {l' : List β}

/-- `forM` adds the steps of its turns, one turn after the other. Another list tells which steps. -/
theorem books_forM₂ {turn : β → ConstructionM PUnit} (hall : List.Forall₂ R l l')
    (hturn : ∀ a b, R a b → ∀ d d', d.flowPlaces = c.flowPlaces → d.rootSink = c.rootSink →
      turn b d = .ok () d' → Books g (T a) d d')
    (h : l'.forM turn c = .ok () c') : Books g (l.flatMap T) c c' := by
  induction hall generalizing c with
  | nil =>
    cases h
    exact .refl _
  | cons hab _ ih =>
    rw [List.forM] at h
    obtain ⟨_, c₁, hb, hl⟩ := bind_eq_ok.1 h
    refine (hturn _ _ hab c c₁ rfl rfl hb).trans fun hflows hsink => ih ?_ hl
    exact fun a b hr d d' hflows' hsink' => hturn a b hr d d' (hflows'.trans hflows)
      (hsink'.trans hsink)

theorem books_mapM₂ {turn : β → ConstructionM γ} {ys : List γ} (hall : List.Forall₂ R l l')
    (hturn : ∀ a b, R a b → ∀ d y d', d.flowPlaces = c.flowPlaces → d.rootSink = c.rootSink →
      turn b d = .ok y d' → Books g (T a) d d')
    (h : l'.mapM turn c = .ok ys c') : Books g (l.flatMap T) c c' := by
  induction hall generalizing c ys with
  | nil =>
    rw [List.mapM_nil] at h
    cases h
    exact .refl _
  | cons hab _ ih =>
    rw [List.mapM_cons] at h
    obtain ⟨y, c₁, hb, h⟩ := bind_eq_ok.1 h
    obtain ⟨ys', c₂, hl, h⟩ := bind_eq_ok.1 h
    cases h
    refine (hturn _ _ hab c y c₁ rfl rfl hb).trans fun hflows hsink => ih ?_ hl
    exact fun a b hr d y d' hflows' hsink' => hturn a b hr d y d' (hflows'.trans hflows)
      (hsink'.trans hsink)

theorem books_forM {turn : α → ConstructionM PUnit}
    (hturn : ∀ a ∈ l, ∀ d d', d.flowPlaces = c.flowPlaces → turn a d = .ok () d' → Books g (T a) d d')
    (h : l.forM turn c = .ok () c') : Books g (l.flatMap T) c c' := by
  refine books_forM₂ (R := fun a b => a = b ∧ a ∈ l) (List.forall₂_same.2 fun a ha => ⟨rfl, ha⟩) ?_ h
  rintro a _ ⟨rfl, ha⟩ d d' hflows _
  exact hturn a ha d d' hflows

/-- `forM` where the turns add no steps. -/
theorem books_forM_nil {turn : α → ConstructionM PUnit}
    (hturn : ∀ a ∈ l, ∀ d d', turn a d = .ok () d' → Books g [] d d')
    (h : l.forM turn c = .ok () c') : Books g [] c c' := by
  have hloop := books_forM (T := fun _ => []) (fun a ha d d' _ => hturn a ha d d') h
  rwa [List.flatMap_eq_nil_iff.2 fun _ _ => rfl] at hloop

end Loops

/-- A change that neither adds nodes nor touches arcs of places of flows. -/
theorem books_of_same (hconsistent : c.net.Consistent → c'.net.Consistent)
    (hflows : c'.flowPlaces = c.flowPlaces) (hsink : c'.rootSink = c.rootSink)
    (hplace : ∀ p, c'.net.place? p = c.net.place? p)
    (htransitions : c'.net.liveTransitions = c.net.liveTransitions)
    (harcs : ∀ a : Arc, a.kind.isNormal → ¬ IsGate c a.place → (a ∈ c'.net.arcs ↔ a ∈ c.net.arcs)) :
    Books g [] c c' := by
  intro done gates steps place hl
  rw [List.append_nil]
  have hgate := fun p => isGate_iff_of_place? (p := p) hplace
  refine ⟨⟨hconsistent hl.consistent, hl.lodged.kept hplace hflows, ?_⟩, hflows, hsink⟩
  rw [htransitions]
  refine hl.listed.imp fun s e hs => hs.kept ?_ rfl rfl (fun p => (hgate p).2) fun a _ hkind ha => ?_
  · rw [← mem_liveTransitions, htransitions, mem_liveTransitions]
    exact hs.live
  · exact harcs a hkind fun hg => ha ((hgate _).2 hg)

/-! ## Steps -/

/-- The places are those of the flows. -/
structure Placing (c : Construction) (fs : List FlowId) (ps : List PlaceId) : Prop where
  place : ∀ f ∈ fs, ∃ p ∈ ps, c.flowPlaces.lookup f = some p
  flow : ∀ p ∈ ps, ∃ f ∈ fs, c.flowPlaces.lookup f = some p

theorem Placing.kept {fs : List FlowId} {ps : List PlaceId} (h : Placing c fs ps)
    (hflows : c'.flowPlaces = c.flowPlaces) : Placing c' fs ps := by
  obtain ⟨hplace, hflow⟩ := h
  exact ⟨by rwa [hflows], by rwa [hflows]⟩

theorem placing_singleton (h : c.flowPlaces.lookup f = some p) : Placing c [f] [p] where
  place _ hk := ⟨p, List.mem_singleton_self p, List.mem_singleton.1 hk ▸ h⟩
  flow _ hq := ⟨f, List.mem_singleton_self f, List.mem_singleton.1 hq ▸ h⟩

/-- Where the places are live, they are the places that the flows have. -/
theorem Placing.mem_iff {fs : List FlowId} {ps : List PlaceId} (h : Placing c fs ps)
    (hc : Lodged g done gates place c) (hlive : ∀ p ∈ ps, c.net.hasPlace p) :
    p ∈ ps ↔ ∃ f ∈ fs, place f = p := by
  constructor
  · intro hp
    obtain ⟨f, hf, hlookup⟩ := h.flow p hp
    exact ⟨f, hf, hc.found f p hlookup (hlive p hp)⟩
  · rintro ⟨f, hf, rfl⟩
    obtain ⟨q, hq, hlookup⟩ := h.place f hf
    exact hc.found f q hlookup (hlive q hq) ▸ hq

theorem addArcs_liveTransitions {α : Type} {f : α → Arc} {l : List α} (hc : c.net.Consistent)
    (h : (l.forM fun x => addArc (f x)) c = .ok () c') :
    c'.net.liveTransitions = c.net.liveTransitions := by
  obtain ⟨n, rfl, hadd⟩ := addArcs_effect hc h
  exact hadd.nodes.liveTransitions

theorem addStep_liveTransitions {x : Transition} {inputs outputs : List PlaceId}
    (hc : c.net.Consistent) (h : addStep x inputs outputs c = .ok t c') :
    c'.net.liveTransitions = c.net.liveTransitions ++ [(t, x)] := by
  obtain ⟨_, c₁, ht, h⟩ := bind_eq_ok.1 h
  obtain ⟨_, c₂, hin, h⟩ := bind_eq_ok.1 h
  obtain ⟨_, c₃, hout, h⟩ := bind_eq_ok.1 h
  cases h
  obtain ⟨n₁, hadd, rfl⟩ := onNet_eq_ok.1 ht
  have hc₁ : n₁.Consistent := (hc.addTransition hadd).consistent
  obtain ⟨n₂, rfl, hext⟩ := addArcs_effect hc₁ hin
  rw [addArcs_liveTransitions hext.consistent hout, hext.nodes.liveTransitions,
    liveTransitions_addTransition hadd]

/-- `addStep` takes from the places of the flows of a step and puts into those. -/
theorem books_addStep {s : Step} {x : Transition} {inputs outputs : List PlaceId}
    (h : addStep x inputs outputs c = .ok t c') (hname : x.name = s.name) (hlabel : x.label = s.label)
    (hin : Placing c s.takes inputs) (hout : Placing c s.gives outputs) : Books g [s] c c' := by
  intro done gates steps place hl
  obtain ⟨n, rfl, hadd⟩ := addStep_effect hl.consistent h
  have hgate : ∀ p, IsGate { c with net := n } p ↔ IsGate c p := fun _ => isGate_iff_of_place? hadd.place?
  have hlive : ∀ a ∈ n.arcs, c.net.hasPlace a.place := fun a ha => by
    rw [Net.hasPlace, ← hadd.place?]
    exact hadd.consistent.livePlace a ha
  -- The transition is new, so it has no arcs but those that it is added with.
  have hfresh : ∀ a ∈ c.net.arcs, a.transition ≠ t := fun _ => hl.consistent.transition_ne hadd.fresh
  refine ⟨⟨hadd.consistent, hl.lodged.kept hadd.place? rfl, ?_⟩, rfl, rfl⟩
  rw [addStep_liveTransitions hl.consistent h]
  refine List.rel_append (hl.listed.imp fun r e hr => ?_) (.cons ?_ .nil)
  · have hne : e.1 ≠ t := ne_of_hasTransition (hasTransition_iff.2 ⟨_, hr.live⟩) hadd.fresh
    refine hr.kept (hadd.transition?_kept hr.live) rfl rfl (fun p => (hgate p).2) fun a ha _ _ => ?_
    · rw [hadd.mem_arcs]
      refine ⟨?_, fun ha => .inr (.inr ha)⟩
      rintro (⟨_, _, rfl⟩ | ⟨_, _, rfl⟩ | ha)
      · exact absurd ha.symm hne
      · exact absurd ha.symm hne
      · exact ha
  · refine ⟨hadd.transition?_self, hname, hlabel, fun p _ => ?_, fun p _ => ?_⟩
    · rw [← hin.mem_iff hl.lodged fun q hq => hlive (.input q t) ((hadd.mem_arcs _).2 (.inl ⟨q, hq, rfl⟩)),
        hadd.mem_arcs]
      constructor
      · rintro (⟨q, hq, he⟩ | ⟨_, _, he⟩ | ha)
        · cases he
          exact hq
        · cases he
        · exact absurd rfl (hfresh _ ha)
      · exact fun hp => .inl ⟨p, hp, rfl⟩
    · rw [← hout.mem_iff hl.lodged fun q hq =>
        hlive (.output t q) ((hadd.mem_arcs _).2 (.inr (.inl ⟨q, hq, rfl⟩))), hadd.mem_arcs]
      constructor
      · rintro (⟨_, _, he⟩ | ⟨q, hq, he⟩ | ha)
        · cases he
        · cases he
          exact hq
        · exact absurd rfl (hfresh _ ha)
      · exact fun hp => .inr (.inl ⟨p, hp, rfl⟩)

end Construction

end ProcessNet
