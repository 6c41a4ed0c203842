/-
The ground of a construction: the places of the flows, before anything else is there. Each flow has a
place in its own process, and only flows into normal ends of the root process share one.
-/
import ProcessNet.Proofs.Conversion.Stitch

namespace ProcessNet.Construction

open Identifier Net ProcessGraph

variable {g : ProcessGraph} {c c' : Construction} {f k : FlowId} {p q : PlaceId}

/-- There are only places of flows. -/
structure Ground (g : ProcessGraph) (c : Construction) : Prop where
  valid : c.Valid
  bound : ∀ f p, c.flowPlaces.lookup f = some p → index f < g.flows.size
  shared : ∀ f k p, c.flowPlaces.lookup f = some p → c.flowPlaces.lookup k = some p →
    f = k ∨ (entersRootEnd g (g.flow f) ∧ entersRootEnd g (g.flow k))
  sink : ∀ p, c.rootSink = some p →
    ∃ f, c.flowPlaces.lookup f = some p ∧ entersRootEnd g (g.flow f)
  sunk : ∀ p f, c.rootSink = some p → c.flowPlaces.lookup f = some p → entersRootEnd g (g.flow f)
  process : ∀ f p, c.flowPlaces.lookup f = some p → entersRootEnd g (g.flow f) = false →
    c.LiesIn p (g.flow f).process
  role : ∀ p, ¬ IsGate c p
  transitions : ∀ t, c.net.transition? t = none
  unmarked : c.initial = ∅

theorem ground_start (g : ProcessGraph) : Ground g (start g) where
  valid := valid_start g
  bound _ _ h := by cases h
  shared _ _ _ h := by cases h
  sink _ h := by cases h
  sunk _ _ h := by cases h
  process _ _ h := by cases h
  role := by
    rintro p ⟨x, hx, _⟩
    cases hx
  transitions _ := rfl
  unmarked := rfl

theorem endRole_ne_boundaryGate (trigger : EventTrigger) (event : String) :
    endRole trigger event ≠ .boundaryGate := by
  cases trigger <;> exact PlaceRole.noConfusion

theorem flowRole_ne_boundaryGate (g : ProcessGraph) (x : Flow) : flowRole g x ≠ .boundaryGate := by
  unfold flowRole
  split
  · exact PlaceRole.noConfusion
  · dsimp only
    split
    · exact endRole_ne_boundaryGate _ _
    · exact PlaceRole.noConfusion

/-- `addFlowPlace` gives a flow the place that is shared, or a new one. -/
theorem addFlowPlace_eq_ok (h : addFlowPlace g f c = .ok () c') :
    (∃ p, entersRootEnd g (g.flow f) ∧ c.rootSink = some p ∧
      c' = { c with flowPlaces := (f, p) :: c.flowPlaces }) ∨
    ∃ n p, (entersRootEnd g (g.flow f) → c.rootSink = none) ∧ c.net.addPlace
        { name := flowPlaceName (flowRole g (g.flow f)) (g.flow f), role := flowRole g (g.flow f),
          process := (g.flow f).process } = .ok (n, p) ∧
      c' = { c with
        net := n, flowPlaces := (f, p) :: c.flowPlaces
        rootSink := if entersRootEnd g (g.flow f) then some p else c.rootSink } := by
  unfold addFlowPlace at h
  rw [get_bind] at h
  cases hroot : if entersRootEnd g (g.flow f) then c.rootSink else none with
  | some p =>
    rw [hroot] at h
    cases h
    split at hroot
    · rename_i henters
      exact .inl ⟨p, henters, hroot, rfl⟩
    · cases hroot
  | none =>
    rw [hroot] at h
    obtain ⟨p, c₁, hadd, h⟩ := bind_eq_ok.1 h
    obtain ⟨n, hn, rfl⟩ := onNet_eq_ok.1 hadd
    cases h
    exact .inr ⟨n, p, fun henters => (if_pos henters).symm.trans hroot, hn, rfl⟩

theorem lookup_register_of_ne {l : List (FlowId × PlaceId)} (hne : k ≠ f) :
    ((f, p) :: l).lookup k = l.lookup k := by
  rw [List.lookup_cons, beq_false_of_ne hne]

theorem lookup_register {l : List (FlowId × PlaceId)} {q : PlaceId}
    (h : ((f, p) :: l).lookup k = some q) : (k = f ∧ q = p) ∨ (k ≠ f ∧ l.lookup k = some q) := by
  by_cases hkf : k = f
  · rw [hkf, List.lookup_cons_self] at h
    exact .inl ⟨hkf, (Option.some.inj h).symm⟩
  · exact .inr ⟨hkf, (lookup_register_of_ne hkf).symm.trans h⟩

/-- A flow that gets its place last leaves the others theirs. -/
theorem lookup_register_kept {l : List (FlowId × PlaceId)} {q : PlaceId} (hnew : l.lookup f = none)
    (h : l.lookup k = some q) : ((f, p) :: l).lookup k = some q := by
  refine (lookup_register_of_ne ?_).trans h
  rintro rfl
  rw [hnew] at h
  cases h

/-- `addFlowPlace` gives one more flow into a normal end of the root process the sink. -/
theorem Ground.shareSink (hg : Ground g c) (hf : index f < g.flows.size)
    (henters : entersRootEnd g (g.flow f)) (hsink : c.rootSink = some p)
    (hvalid : Valid { c with flowPlaces := (f, p) :: c.flowPlaces }) :
    Ground g { c with flowPlaces := (f, p) :: c.flowPlaces } := by
  refine { hg with
    valid := hvalid
    bound := fun k q hk => ?bound
    shared := fun k j q hk hj => ?shared
    sink := fun q hq => ?sink
    sunk := fun q k hq hk => ?sunk
    process := fun k q hk hnot => ?process }
  case bound =>
    rcases lookup_register hk with ⟨rfl, rfl⟩ | ⟨_, hk⟩
    · exact hf
    · exact hg.bound k q hk
  case shared =>
    rcases lookup_register hk with ⟨rfl, rfl⟩ | ⟨_, hold⟩
    · rcases lookup_register hj with ⟨rfl, _⟩ | ⟨_, hj⟩
      · exact .inl rfl
      · exact .inr ⟨henters, hg.sunk _ _ hsink hj⟩
    · rcases lookup_register hj with ⟨rfl, rfl⟩ | ⟨_, hj⟩
      · exact .inr ⟨hg.sunk _ _ hsink hold, henters⟩
      · exact hg.shared k j q hold hj
  case sink =>
    rw [hsink] at hq
    cases hq
    exact ⟨f, List.lookup_cons_self, henters⟩
  case sunk =>
    rcases lookup_register hk with ⟨rfl, _⟩ | ⟨_, hk⟩
    · exact henters
    · exact hg.sunk q k hq hk
  case process =>
    rcases lookup_register hk with ⟨rfl, _⟩ | ⟨_, hk⟩
    · rw [henters] at hnot
      cases hnot
    · exact hg.process k q hk hnot

/-- `addFlowPlace` gives a flow a place that is new, and that is the sink from now on if the flow leads
into a normal end of the root process. -/
theorem Ground.newPlace {n : Net} (hg : Ground g c) (hf : index f < g.flows.size)
    (hadd : c.net.addPlace
      { name := flowPlaceName (flowRole g (g.flow f)) (g.flow f), role := flowRole g (g.flow f),
        process := (g.flow f).process } = .ok (n, p))
    (hvalid : Valid { c with
      net := n, flowPlaces := (f, p) :: c.flowPlaces
      rootSink := if entersRootEnd g (g.flow f) then some p else c.rootSink }) :
    Ground g { c with
      net := n, flowPlaces := (f, p) :: c.flowPlaces
      rootSink := if entersRootEnd g (g.flow f) then some p else c.rootSink } := by
  have hadded := hg.valid.consistent.addPlace hadd
  obtain ⟨_, hp, _⟩ := addPlace_eq_ok hadd
  -- The place is new, so it is that of no other flow.
  have hold : ∀ k, c.flowPlaces.lookup k ≠ some p := fun k hk =>
    Arena.ne_next_of_lt (hg.valid.flows k p hk) hp
  refine {
    valid := hvalid
    bound := fun k q hk => ?bound
    shared := fun k j q hk hj => ?shared
    sink := fun q hq => ?sink
    sunk := fun q k hq hk => ?sunk
    process := fun k q hk hnot => ?process
    role := fun q hq => ?role
    transitions := fun t => ?transitions
    unmarked := hg.unmarked }
  case bound =>
    rcases lookup_register hk with ⟨rfl, rfl⟩ | ⟨_, hk⟩
    · exact hf
    · exact hg.bound k q hk
  case shared =>
    rcases lookup_register hk with ⟨rfl, rfl⟩ | ⟨_, hk'⟩
    · rcases lookup_register hj with ⟨rfl, _⟩ | ⟨_, hj⟩
      · exact .inl rfl
      · exact absurd hj (hold j)
    · rcases lookup_register hj with ⟨rfl, rfl⟩ | ⟨_, hj⟩
      · exact absurd hk' (hold k)
      · exact hg.shared k j q hk' hj
  case sink =>
    dsimp only at hq
    split at hq
    · rename_i henters
      cases hq
      exact ⟨f, List.lookup_cons_self, henters⟩
    · rename_i hnot
      obtain ⟨k, hk, henters⟩ := hg.sink q hq
      refine ⟨k, (lookup_register_of_ne ?_).trans hk, henters⟩
      rintro rfl
      exact hnot henters
  case sunk =>
    dsimp only at hq
    split at hq
    · rename_i henters
      cases hq
      rcases lookup_register hk with ⟨rfl, _⟩ | ⟨_, hk⟩
      · exact henters
      · exact absurd hk (hold k)
    · rcases lookup_register hk with ⟨rfl, rfl⟩ | ⟨_, hk⟩
      · obtain ⟨j, hj, _⟩ := hg.sink q hq
        exact absurd hj (hold j)
      · exact hg.sunk q k hq hk
  case process =>
    rcases lookup_register hk with ⟨rfl, rfl⟩ | ⟨_, hk'⟩
    · exact ⟨_, hadded.place?_self, rfl⟩
    · obtain ⟨x, hx, hprocess⟩ := hg.process k q hk' hnot
      exact ⟨x, hadded.place?_kept hx, hprocess⟩
  case role =>
    obtain ⟨x, hx, hrole⟩ := hq
    rw [hadded.place?] at hx
    split at hx
    · cases hx
      exact flowRole_ne_boundaryGate g _ hrole
    · exact hg.role q ⟨x, hx, hrole⟩
  case transitions =>
    rw [hadded.transition?]
    exact hg.transitions t

theorem Ground.addFlowPlace (hg : Ground g c) (hf : index f < g.flows.size)
    (h : addFlowPlace g f c = .ok () c') : Ground g c' := by
  have hvalid : c'.Valid :=
    ((makes_addFlowPlace g trivial f (F := unfenced)).within h hg.valid.unfenced).valid hg.valid
  rcases addFlowPlace_eq_ok h with ⟨p, henters, hsink, rfl⟩ | ⟨n, p, _, hadd, rfl⟩
  · exact hg.shareSink hf henters hsink hvalid
  · exact hg.newPlace hf hadd hvalid

theorem ground_of_addFlowPlaces (h : addFlowPlaces g (start g) = .ok () c) : Ground g c := by
  have hturn : ∀ f ∈ g.sortedFlows, ∀ c c', addFlowPlace g f c = .ok () c' →
      Ground g c → Ground g c' :=
    fun f hf _ _ hrun hc => hc.addFlowPlace (mem_sortedFlows.1 hf) hrun
  exact rel_of_forM (R := fun c c' => Ground g c → Ground g c') (fun _ => id)
    (fun _ _ _ h₁ h₂ hc => h₂ (h₁ hc)) hturn h (ground_start g)

/-- After `addFlowPlaces` flows into normal ends of the root process have the place that they share. -/
theorem rootSink_of_addFlowPlaces (h : addFlowPlaces g (start g) = .ok () c)
    (hf : c.flowPlaces.lookup f = some p) (henters : entersRootEnd g (g.flow f)) :
    c.rootSink = some p := by
  let Sunk (c : Construction) : Prop := ∀ f p, c.flowPlaces.lookup f = some p →
    entersRootEnd g (g.flow f) → c.rootSink = some p
  have hturn : ∀ k ∈ g.sortedFlows, ∀ c c', addFlowPlace g k c = .ok () c' → Sunk c → Sunk c' := by
    intro k _ c c' hrun hc f p hf henters
    rcases addFlowPlace_eq_ok hrun with ⟨q, _, hsink, rfl⟩ | ⟨n, q, hnone, _, rfl⟩
    · rcases lookup_register hf with ⟨_, rfl⟩ | ⟨_, hf⟩
      · exact hsink
      · exact hc f p hf henters
    · rcases lookup_register hf with ⟨rfl, rfl⟩ | ⟨_, hf⟩
      · exact if_pos henters
      · have hsink := hc f p hf henters
        refine (if_neg fun hk => ?_).trans hsink
        rw [hnone hk] at hsink
        cases hsink
  exact rel_of_forM (R := fun c c' => Sunk c → Sunk c') (fun _ => id)
    (fun _ _ _ h₁ h₂ hc => h₂ (h₁ hc)) hturn h (fun _ _ hf => by cases hf) f p hf henters

/-- `addFlowPlace` made the place for the flow. Flows get their places in the order of their ids, so of
those that share a place it is the first one that the place was made for. -/
def MadeFor (g : ProcessGraph) (c : Construction) (f : FlowId) (q : PlaceId) : Prop :=
  c.flowPlaces.lookup f = some q ∧
    ∀ k, c.flowPlaces.lookup k = some q → (g.flow f).id ≤ (g.flow k).id

/-- Each place was made for a flow, in its process. -/
structure Made (g : ProcessGraph) (c : Construction) : Prop where
  liesIn : ∀ f p, MadeFor g c f p → c.LiesIn p (g.flow f).process
  flow : ∀ p, c.net.hasPlace p → ∃ f, MadeFor g c f p

theorem made_start (g : ProcessGraph) : Made g (start g) where
  liesIn _ _ h := by cases h.1
  flow _ h := by cases h

/-- A flow that comes after all those that have a place leaves it to them. -/
theorem made_addFlowPlace (hg : Ground g c)
    (hlast : ∀ k q, c.flowPlaces.lookup k = some q → (g.flow k).id < (g.flow f).id)
    (hmade : Made g c) (h : addFlowPlace g f c = .ok () c') : Made g c' := by
  have hunplaced : c.flowPlaces.lookup f = none :=
    Option.eq_none_iff_forall_ne_some.2 fun q hf => String.lt_irrefl _ (hlast f q hf)
  have hstays : ∀ p k q, MadeFor g c k q → (∀ j, ((f, p) :: c.flowPlaces).lookup j = some q →
      (g.flow k).id ≤ (g.flow j).id) := by
    intro p k q hk j hj
    rcases lookup_register hj with ⟨rfl, _⟩ | ⟨_, hj⟩
    · exact String.not_lt.1 (String.lt_asymm (hlast k q hk.1))
    · exact hk.2 j hj
  rcases addFlowPlace_eq_ok h with ⟨p, _, hsink, rfl⟩ | ⟨n, p, _, hadd, rfl⟩
  · refine ⟨fun k q hk => ?_, fun q hq => ?_⟩
    · rcases lookup_register hk.1 with ⟨rfl, rfl⟩ | ⟨_, hold⟩
      · -- The flow that the sink was made for comes before this one.
        obtain ⟨j, hj, _⟩ := hg.sink q hsink
        exact absurd (hlast j q hj) (String.not_lt.2 (hk.2 j (lookup_register_kept hunplaced hj)))
      · exact hmade.liesIn k q ⟨hold, fun j hj => hk.2 j (lookup_register_kept hunplaced hj)⟩
    · obtain ⟨k, hk⟩ := hmade.flow q hq
      exact ⟨k, lookup_register_kept hunplaced hk.1, hstays p k q hk⟩
  · have hadded := hg.valid.consistent.addPlace hadd
    obtain ⟨_, hp, _⟩ := addPlace_eq_ok hadd
    have hnew : ∀ k, c.flowPlaces.lookup k ≠ some p := fun k hk =>
      Arena.ne_next_of_lt (hg.valid.flows k p hk) hp
    refine ⟨fun k q hk => ?_, fun q hq => ?_⟩
    · rcases lookup_register hk.1 with ⟨rfl, rfl⟩ | ⟨_, hold⟩
      · exact ⟨_, hadded.place?_self, rfl⟩
      · obtain ⟨x, hx, hprocess⟩ :=
          hmade.liesIn k q ⟨hold, fun j hj => hk.2 j (lookup_register_kept hunplaced hj)⟩
        exact ⟨x, hadded.place?_kept hx, hprocess⟩
    · by_cases hqp : q = p
      · subst hqp
        refine ⟨f, List.lookup_cons_self, fun j hj => ?_⟩
        rcases lookup_register hj with ⟨rfl, _⟩ | ⟨_, hj⟩
        · exact String.le_refl _
        · exact absurd hj (hnew j)
      · rw [hasPlace, hadded.place?, if_neg hqp] at hq
        obtain ⟨k, hk⟩ := hmade.flow q hq
        exact ⟨k, lookup_register_kept hunplaced hk.1, hstays p k q hk⟩

theorem made_of_forM {l : List FlowId} (hg : Ground g c) (hl : ∀ k ∈ l, index k < g.flows.size)
    (hsorted : l.Pairwise fun k j => (g.flow k).id < (g.flow j).id)
    (hlast : ∀ j ∈ l, ∀ k q, c.flowPlaces.lookup k = some q → (g.flow k).id < (g.flow j).id)
    (hmade : Made g c) (h : l.forM (addFlowPlace g) c = .ok () c') : Made g c' := by
  induction l generalizing c with
  | nil =>
    cases h
    exact hmade
  | cons j l ih =>
    rw [List.forM] at h
    obtain ⟨_, c₁, hturn, hrest⟩ := bind_eq_ok.1 h
    obtain ⟨hfirst, hsorted⟩ := List.pairwise_cons.1 hsorted
    refine ih (hg.addFlowPlace (hl j List.mem_cons_self) hturn)
      (fun k hk => hl k (List.mem_cons_of_mem _ hk)) hsorted (fun i hi k q hk => ?_)
      (made_addFlowPlace hg (hlast j List.mem_cons_self) hmade hturn) hrest
    obtain ⟨r, hr⟩ : ∃ r, c₁.flowPlaces = (j, r) :: c.flowPlaces := by
      rcases addFlowPlace_eq_ok hturn with ⟨r, _, _, rfl⟩ | ⟨_, r, _, _, rfl⟩ <;> exact ⟨r, rfl⟩
    rw [hr] at hk
    rcases lookup_register hk with ⟨rfl, _⟩ | ⟨_, hk⟩
    · exact hfirst i hi
    · exact hlast i (List.mem_cons_of_mem _ hi) k q hk

theorem made_of_addFlowPlaces (hd : g.Distinct) (h : addFlowPlaces g (start g) = .ok () c) :
    Made g c :=
  made_of_forM (ground_start g) (fun _ => mem_sortedFlows.1) hd.pairwise_sortedFlows
    (fun _ _ _ _ hk => by cases hk) (made_start g) h

/-- After `addFlowPlaces` every flow has a place. -/
theorem exists_place_of_addFlowPlaces (h : addFlowPlaces g c = .ok () c')
    (hf : index f < g.flows.size) : ∃ p, c'.flowPlaces.lookup f = some p := by
  let Keeps (c c' : Construction) : Prop := ∀ f, (∃ p, c.flowPlaces.lookup f = some p) →
    ∃ p, c'.flowPlaces.lookup f = some p
  have hturn : ∀ k c c', addFlowPlace g k c = .ok () c' →
      (∃ p, c'.flowPlaces.lookup k = some p) ∧ Keeps c c' := by
    intro k c c' hrun
    obtain ⟨p, hp⟩ : ∃ p, c'.flowPlaces = (k, p) :: c.flowPlaces := by
      rcases addFlowPlace_eq_ok hrun with ⟨p, _, _, rfl⟩ | ⟨_, p, _, _, rfl⟩ <;> exact ⟨p, rfl⟩
    refine ⟨⟨p, by rw [hp, List.lookup_cons_self]⟩, fun j hj => ?_⟩
    obtain ⟨q, hq⟩ := hj
    by_cases hjk : j = k
    · exact ⟨p, by rw [hp, hjk, List.lookup_cons_self]⟩
    · exact ⟨q, by rw [hp, lookup_register_of_ne hjk, hq]⟩
  obtain ⟨c₁, c₂, _, hrun, hkeeps⟩ := exists_of_mem_forM (R := Keeps) (fun _ _ => id)
    (fun _ _ _ h₁ h₂ k hk => h₂ k (h₁ k hk)) (fun k _ s s' hrun => (hturn k s s' hrun).2) h
    (mem_sortedFlows.2 hf)
  exact hkeeps f (hturn f c₁ c₂ hrun).1

theorem Ground.not_mem_arcs (hg : Ground g c) (a : Arc) : a ∉ c.net.arcs := by
  intro ha
  have hlive := hg.valid.consistent.liveTransition a ha
  rw [Net.hasTransition, hg.transitions] at hlive
  cases hlive

theorem Ground.sound (hg : Ground g c) : Sound g c where
  valid := hg.valid
  bound := hg.bound
  shared := hg.shared
  sink := hg.sink
  plain _ p _ := hg.role p
  sole _ _ _ _ _ ha := absurd ha (hg.not_mem_arcs _)
  opened _ _ _ _ ha := absurd ha (hg.not_mem_arcs _)

end ProcessNet.Construction
