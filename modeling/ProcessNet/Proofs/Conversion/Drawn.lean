/-
The names that a construction draws. Every part of it draws names from a list that the graph tells, each of
them once, and leaves all other names alone. So a construction whose lists repeat no name never meets one
that is taken.
-/
import ProcessNet.Proofs.Conversion.Closing

namespace ProcessNet

/-! ## Names in an index -/

namespace NameIndex

variable {ι : Type} {x x' x'' : NameIndex ι} {names names' : List String}

theorem contains_insert {name n : String} {i : ι} :
    (x.insert name i).contains n ↔ n = name ∨ x.contains n := by
  rw [contains, contains, find?_insert]
  split <;> simp_all

theorem contains_of_erase {name n : String} (h : (x.erase name).contains n) : x.contains n := by
  simp only [contains, find?, erase, List.lookup_isSome_iff] at h ⊢
  obtain ⟨e, he, hn⟩ := h
  exact ⟨e, List.mem_of_mem_eraseP he, hn⟩

/-- None of the names is in the index, and they are pairwise different, so that `addPlace` or
`addTransition` takes them all. -/
structure Frees (x : NameIndex ι) (names : List String) : Prop where
  nodup : names.Nodup
  unused : ∀ n ∈ names, x.contains n = false

/-- All names that came into the index are among the given ones. -/
def Gains (names : List String) (x x' : NameIndex ι) : Prop :=
  ∀ n, x'.contains n → n ∈ names ∨ x.contains n

theorem Gains.refl (x : NameIndex ι) : Gains [] x x := fun _ h => .inr h

theorem Gains.trans (h : Gains names x x') (k : Gains names' x' x'') : Gains (names ++ names') x x'' := by
  intro n hn
  rw [List.mem_append]
  rcases k n hn with hn | hn
  · exact .inl (.inr hn)
  · exact (h n hn).imp_left .inl

theorem Frees.left (h : x.Frees (names ++ names')) : x.Frees names where
  nodup := (List.nodup_append.1 h.nodup).1
  unused n hn := h.unused n (List.mem_append_left _ hn)

/-- Names that were not drawn yet are still free. -/
theorem Frees.right (h : x.Frees (names ++ names')) (hgains : Gains names x x') : x'.Frees names' := by
  obtain ⟨_, hnodup, hdisjoint⟩ := List.nodup_append.1 h.nodup
  refine ⟨hnodup, fun n hn => ?_⟩
  rw [Bool.eq_false_iff]
  intro hused
  rcases hgains n hused with hdrawn | hold
  · exact hdisjoint n hdrawn n hn rfl
  · rw [h.unused n (List.mem_append_right _ hn)] at hold
    cases hold

theorem frees_empty (h : names.Nodup) : ({} : NameIndex ι).Frees names := ⟨h, fun _ _ => rfl⟩

end NameIndex

/-! ## Names that are taken -/

/-- `addPlace` or `addTransition` has met a name that is taken. -/
def ConversionError.IsDuplicate : ConversionError → Prop
  | .net (.duplicatePlace _) | .net (.duplicateTransition _) => True
  | _ => False

instance : DecidablePred ConversionError.IsDuplicate
  | .net e => by
    cases e <;> first | exact isTrue trivial | exact isFalse id
  | .unsupported _ | .deficient _ _ | .graph _ => isFalse id

namespace Construction

open Identifier Net ProcessGraph NameIndex

variable {α β : Type} {g : ProcessGraph} {c c' : Construction} {ps ps' ts ts' : List String}
  {n m : NodeId} {s : JoinedSubprocess} {showEvents : Bool}

/-- From `c` on only the given names of places and transitions come in; as long as they are free, none of
them is met as one that is taken. -/
def DrawsAt (ps ts : List String) (c : Construction) (r : EStateM.Result ConversionError Construction α) :
    Prop :=
  c.net.placeNames.Frees ps → c.net.transitionNames.Frees ts →
    Ends (fun _ c' => Gains ps c.net.placeNames c'.net.placeNames ∧
      Gains ts c.net.transitionNames c'.net.transitionNames) (fun e _ => ¬ e.IsDuplicate) r

/-- A program that draws the given names, wherever it starts. -/
def Draws (ps ts : List String) (x : ConstructionM α) : Prop := ∀ c, DrawsAt ps ts c (x c)

/-- A program that leaves the names as they are. -/
theorem draws_of_same {x : ConstructionM α}
    (hok : ∀ c a c', x c = .ok a c' → c'.net.placeNames = c.net.placeNames ∧
      c'.net.transitionNames = c.net.transitionNames)
    (herror : ∀ c e c', x c = .error e c' → ¬ e.IsDuplicate) : Draws [] [] x := by
  intro c _ _
  cases hrun : x c with
  | ok a c' =>
    obtain ⟨hplaces, htransitions⟩ := hok c a c' hrun
    constructor
    · rw [hplaces]
      exact .refl _
    · rw [htransitions]
      exact .refl _
  | error e c' => exact herror c e c' hrun

theorem draws_pure (a : α) : Draws [] [] (pure a : ConstructionM α) :=
  fun _ _ _ => ⟨.refl _, .refl _⟩

theorem draws_throw {e : ConversionError} (he : ¬ e.IsDuplicate) :
    Draws ps ts (throw e : ConstructionM α) :=
  fun _ _ _ => he

theorem draws_lacks (d : Deficiency) : Draws ps ts (lacks g n d : ConstructionM α) :=
  draws_throw id

theorem draws_get {f : Construction → ConstructionM β} (h : ∀ c, Draws ps ts (f c)) :
    Draws ps ts (get >>= f) :=
  fun c => h c c

theorem draws_modify {f : Construction → Construction} (hf : ∀ c, (f c).net.placeNames = c.net.placeNames ∧
    (f c).net.transitionNames = c.net.transitionNames) : Draws [] [] (modify f : ConstructionM PUnit) := by
  refine draws_of_same (fun c _ c' h => ?_) fun _ _ _ h => nomatch h
  cases h
  exact hf c

theorem DrawsAt.bind {x : ConstructionM α} {f : α → ConstructionM β} (hx : DrawsAt ps ts c (x c))
    (hf : ∀ a c', x c = .ok a c' → DrawsAt ps' ts' c' (f a c')) :
    DrawsAt (ps ++ ps') (ts ++ ts') c ((x >>= f) c) := by
  intro hplaces htransitions
  have hends := hx hplaces.left htransitions.left
  refine Ends.bind ?_
  cases hrun : x c with
  | error e c' =>
    rw [hrun] at hends
    exact hends
  | ok a c' =>
    rw [hrun] at hends
    obtain ⟨hps, hts⟩ := hends
    exact (hf a c' hrun (hplaces.right hps) (htransitions.right hts)).imp
      (fun _ _ h => ⟨hps.trans h.1, hts.trans h.2⟩) fun _ _ he => he

/-- Behind places. -/
theorem DrawsAt.places {x : ConstructionM α} {f : α → ConstructionM β} (hx : DrawsAt ps [] c (x c))
    (hf : ∀ a c', x c = .ok a c' → DrawsAt ps' ts c' (f a c')) : DrawsAt (ps ++ ps') ts c ((x >>= f) c) :=
  hx.bind hf

/-- What follows may count on how the first part ended. -/
theorem Draws.bind {x : ConstructionM α} {f : α → ConstructionM β} (hx : Draws ps ts x)
    (hf : ∀ a c c', x c = .ok a c' → Draws ps' ts' (f a)) : Draws (ps ++ ps') (ts ++ ts') (x >>= f) :=
  fun c => (hx c).bind fun a c' hrun => hf a c c' hrun c'

/-- Behind a look-up, which draws nothing. -/
theorem Draws.after {x : ConstructionM α} {f : α → ConstructionM β} (hx : Draws [] [] x)
    (hf : ∀ a c c', x c = .ok a c' → Draws ps ts (f a)) : Draws ps ts (x >>= f) :=
  hx.bind hf

/-- In front of something that draws nothing. -/
theorem Draws.before {x : ConstructionM α} {f : α → ConstructionM β} (hx : Draws ps ts x)
    (hf : ∀ a, Draws [] [] (f a)) : Draws ps ts (x >>= f) := by
  have h := hx.bind fun a _ _ _ => hf a
  rwa [List.append_nil, List.append_nil] at h

/-- Behind steps, in front of anything. -/
theorem Draws.steps {x : ConstructionM α} {f : α → ConstructionM β} (hx : Draws [] ts x)
    (hf : ∀ a c c', x c = .ok a c' → Draws ps ts' (f a)) : Draws ps (ts ++ ts') (x >>= f) :=
  hx.bind hf

theorem Draws.step {x : ConstructionM α} {f : α → ConstructionM β} {t : String} (hx : Draws [] [t] x)
    (hf : ∀ a c c', x c = .ok a c' → Draws ps ts (f a)) : Draws ps (t :: ts) (x >>= f) :=
  hx.steps hf

theorem draws_unless {failing : Bool} {d : Deficiency} {rest : PUnit → ConstructionM β}
    (hrest : Draws ps ts (rest ())) :
    Draws ps ts (if failing then lacks g n d >>= rest else rest ()) := by
  cases failing with
  | true => exact draws_throw id
  | false => exact hrest

/-! ## Loops -/

section Loops

variable {γ : Type} {R : γ → α → Prop} {P T : γ → List String}

/-- `forM` draws what its turns draw, one after the other. -/
theorem draws_forM₂ {f : α → ConstructionM PUnit} {ks : List γ} {l : List α}
    (hall : List.Forall₂ R ks l) (h : ∀ k a, R k a → Draws (P k) (T k) (f a)) :
    Draws (ks.flatMap P) (ks.flatMap T) (l.forM f) := by
  induction hall with
  | nil => exact draws_pure _
  | cons hka _ ih =>
    rw [List.flatMap_cons, List.flatMap_cons, List.forM]
    exact (h _ _ hka).bind fun _ _ _ _ => ih

theorem draws_forM {P T : α → List String} {f : α → ConstructionM PUnit} {l : List α}
    (h : ∀ a ∈ l, Draws (P a) (T a) (f a)) : Draws (l.flatMap P) (l.flatMap T) (l.forM f) := by
  refine draws_forM₂ (R := fun b a => b = a ∧ a ∈ l) (List.forall₂_same.2 fun _ ha => ⟨rfl, ha⟩) ?_
  rintro _ a ⟨rfl, ha⟩
  exact h _ ha

theorem draws_mapM {P T : α → List String} {f : α → ConstructionM β} {l : List α}
    (h : ∀ a ∈ l, Draws (P a) (T a) (f a)) : Draws (l.flatMap P) (l.flatMap T) (l.mapM f) := by
  induction l with
  | nil =>
    rw [List.mapM_nil]
    exact draws_pure _
  | cons a l ih =>
    rw [List.flatMap_cons, List.flatMap_cons, List.mapM_cons]
    refine (h a List.mem_cons_self).bind fun _ _ _ _ => ?_
    exact (ih fun b hb => h b (List.mem_cons_of_mem _ hb)).before fun _ => draws_pure _

theorem draws_foldlM {P T : α → List String} {f : β → α → ConstructionM β} {l : List α} {b : β}
    (h : ∀ a ∈ l, ∀ b, Draws (P a) (T a) (f b a)) :
    Draws (l.flatMap P) (l.flatMap T) (l.foldlM f b) := by
  induction l generalizing b with
  | nil => exact draws_pure _
  | cons a l ih =>
    rw [List.flatMap_cons, List.flatMap_cons, List.foldlM_cons]
    exact (h a List.mem_cons_self b).bind fun b' _ _ _ =>
      ih fun a' ha' => h a' (List.mem_cons_of_mem _ ha')

/-! Turns that draw transitions only, and turns that draw nothing. -/

theorem flatMap_nil {l : List α} : (l.flatMap fun _ => ([] : List String)) = [] :=
  List.flatMap_eq_nil_iff.2 fun _ _ => rfl

theorem draws_steps_forM₂ {f : α → ConstructionM PUnit} {ks : List γ} {l : List α}
    (hall : List.Forall₂ R ks l) (h : ∀ k a, R k a → Draws [] (T k) (f a)) :
    Draws [] (ks.flatMap T) (l.forM f) :=
  flatMap_nil (l := ks) ▸ draws_forM₂ hall h

theorem draws_steps_forM {T : α → List String} {f : α → ConstructionM PUnit} {l : List α}
    (h : ∀ a ∈ l, Draws [] (T a) (f a)) : Draws [] (l.flatMap T) (l.forM f) :=
  flatMap_nil (l := l) ▸ draws_forM h

theorem draws_steps_mapM {T : α → List String} {f : α → ConstructionM β} {l : List α}
    (h : ∀ a ∈ l, Draws [] (T a) (f a)) : Draws [] (l.flatMap T) (l.mapM f) :=
  flatMap_nil (l := l) ▸ draws_mapM h

theorem draws_forM_nil {f : α → ConstructionM PUnit} {l : List α} (h : ∀ a ∈ l, Draws [] [] (f a)) :
    Draws [] [] (l.forM f) := by
  have hl := draws_steps_forM h
  rwa [flatMap_nil] at hl

theorem draws_mapM_nil {f : α → ConstructionM β} {l : List α} (h : ∀ a ∈ l, Draws [] [] (f a)) :
    Draws [] [] (l.mapM f) := by
  have hl := draws_steps_mapM h
  rwa [flatMap_nil] at hl

theorem draws_foldlM_nil {f : β → α → ConstructionM β} {l : List α} {b : β}
    (h : ∀ a ∈ l, ∀ b, Draws [] [] (f b a)) : Draws [] [] (l.foldlM f b) := by
  have hl := draws_foldlM (b := b) h
  rwa [flatMap_nil] at hl

end Loops

/-! ## Single additions -/

theorem onNet_eq_error {f : Net → Except NetError (Net × α)} {e : ConversionError}
    (h : onNet f c = .error e c') : ∃ e', f c.net = .error e' ∧ e = .net e' := by
  unfold onNet at h
  rw [get_bind] at h
  cases hf : f c.net with
  | ok r =>
    rw [hf] at h
    cases h
  | error e' =>
    rw [hf] at h
    cases h
    exact ⟨e', rfl, rfl⟩

theorem draws_addPlace {x : Place} (hname : ps = [x.name]) : Draws ps [] (addPlace x) := by
  subst hname
  intro c hplaces _
  have hfree := hplaces.unused x.name (List.mem_singleton_self _)
  cases hrun : addPlace x c with
  | ok p c' =>
    obtain ⟨net, hadd, rfl⟩ := onNet_eq_ok.1 hrun
    obtain ⟨_, _, rfl⟩ := addPlace_eq_ok hadd
    refine ⟨fun n hn => ?_, .refl _⟩
    exact (contains_insert.1 hn).imp_left List.mem_singleton.2
  | error e c' =>
    obtain ⟨e', hadd, rfl⟩ := onNet_eq_error hrun
    simp only [Net.addPlace, hfree] at hadd
    change (if c.net.incidence.byPlace.next = c.net.places.next then _ else _) = _ at hadd
    split at hadd
    · cases hadd
    · cases hadd
      exact id

theorem draws_addTransition {x : Transition} (hname : ts = [x.name]) : Draws [] ts (addTransition x) := by
  subst hname
  intro c _ htransitions
  have hfree := htransitions.unused x.name (List.mem_singleton_self _)
  cases hrun : addTransition x c with
  | ok t c' =>
    obtain ⟨net, hadd, rfl⟩ := onNet_eq_ok.1 hrun
    obtain ⟨_, _, rfl⟩ := addTransition_eq_ok hadd
    refine ⟨.refl _, fun n hn => ?_⟩
    exact (contains_insert.1 hn).imp_left List.mem_singleton.2
  | error e c' =>
    obtain ⟨e', hadd, rfl⟩ := onNet_eq_error hrun
    simp only [Net.addTransition, hfree] at hadd
    change (if c.net.incidence.byTransition.next = c.net.transitions.next then _ else _) = _ at hadd
    split at hadd
    · cases hadd
    · cases hadd
      exact id

/-- `onNet` draws nothing with a change of the net that leaves its names as they are. -/
theorem draws_onNet {f : Net → Except NetError (Net × α)}
    (hok : ∀ n n' a, f n = .ok (n', a) → (∀ name, n'.placeNames.contains name → n.placeNames.contains name) ∧
      n'.transitionNames = n.transitionNames)
    (herror : ∀ n e, f n = .error e → ¬ ConversionError.IsDuplicate (.net e)) : Draws [] [] (onNet f) := by
  intro c _ _
  cases hrun : onNet f c with
  | ok a c' =>
    obtain ⟨net, hf, rfl⟩ := onNet_eq_ok.1 hrun
    obtain ⟨hplaces, htransitions⟩ := hok _ _ _ hf
    refine ⟨fun name hname => .inr (hplaces name hname), ?_⟩
    dsimp only
    rw [htransitions]
    exact .refl _
  | error e c' =>
    obtain ⟨e', hf, rfl⟩ := onNet_eq_error hrun
    exact herror _ _ hf

theorem not_isDuplicate_map {r : Except Fault α} {f : α → β} {e : NetError}
    (h : (NetError.ofFault r).map f = .error e) : ¬ ConversionError.IsDuplicate (.net e) := by
  cases r with
  | ok x => cases h
  | error f =>
    cases h
    exact id

theorem draws_addArc (a : Arc) : Draws [] [] (addArc a) := by
  refine Draws.before (draws_onNet (fun n n' new hadd => ?_) fun n e hadd => ?_) fun _ => draws_pure ()
  · obtain ⟨_, _, _, _, rfl⟩ := addArc_eq_ok hadd
    exact ⟨fun _ => id, rfl⟩
  · unfold Net.addArc at hadd
    split at hadd
    · split at hadd
      · exact not_isDuplicate_map hadd
      · cases hadd
        exact id
    · cases hadd
      exact id

theorem draws_removePlace (p : PlaceId) : Draws [] [] (onNet (·.removePlace p)) := by
  refine draws_onNet (fun n n' x hremove => ?_) fun n e hremove => ?_
  · obtain ⟨_, _, _, _, rfl⟩ := removePlace_eq_ok hremove
    exact ⟨fun _ => contains_of_erase, rfl⟩
  · unfold Net.removePlace at hremove
    split at hremove
    · cases hremove
      exact id
    · exact not_isDuplicate_map hremove

theorem draws_addStep {x : Transition} {inputs outputs : List PlaceId} (hname : ts = [x.name]) :
    Draws [] ts (addStep x inputs outputs) := by
  refine Draws.before (draws_addTransition hname) fun t => ?_
  refine Draws.after (draws_forM_nil fun p _ => draws_addArc _) fun _ _ _ _ => ?_
  exact Draws.after (draws_forM_nil fun p _ => draws_addArc _) fun _ _ _ _ => draws_pure t

/-- `addStep` where the number of the transition is not needed. -/
theorem draws_addStep_unit {x : Transition} {inputs outputs : List PlaceId} (hname : ts = [x.name]) :
    Draws [] ts (do let _ ← addStep x inputs outputs) :=
  Draws.before (draws_addStep hname) fun _ => draws_pure ()

theorem draws_flowPlace (f : FlowId) : Draws [] [] (flowPlace f) := by
  refine draws_get fun c => ?_
  split
  · exact draws_pure _
  · exact draws_throw id

theorem draws_inPlace (n : NodeId) : Draws [] [] (inPlace g n) := by
  unfold inPlace
  split
  · exact draws_flowPlace _
  · exact draws_lacks _

theorem draws_outPlace (n : NodeId) : Draws [] [] (outPlace g n) := by
  unfold outPlace
  split
  · exact draws_flowPlace _
  · exact draws_lacks _

theorem draws_sortedPlaces (flows : List FlowId) : Draws [] [] (sortedPlaces g flows) :=
  draws_mapM_nil fun f _ => draws_flowPlace f

/-! ## Flows -/

/-- The name of the place that a flow gets. -/
def flowName (g : ProcessGraph) (f : FlowId) : String := flowPlaceName (flowRole g (g.flow f)) (g.flow f)

/-- The flows that get places of their own. With `sunk` the sink is there already. -/
def placed (g : ProcessGraph) : Bool → List FlowId → List FlowId
  | _, [] => []
  | sunk, f :: l =>
    if entersRootEnd g (g.flow f) then if sunk then placed g true l else f :: placed g true l
    else f :: placed g sunk l

theorem draws_addFlowPlace (f : FlowId) :
    DrawsAt (if entersRootEnd g (g.flow f) ∧ c.rootSink.isSome then [] else [flowName g f]) [] c
      (addFlowPlace g f c) := by
  unfold addFlowPlace
  rw [get_bind]
  cases hroot : if entersRootEnd g (g.flow f) then c.rootSink else none with
  | some p =>
    have hshared : entersRootEnd g (g.flow f) ∧ c.rootSink.isSome := by
      split at hroot
      · exact ⟨‹_›, by rw [hroot]; rfl⟩
      · cases hroot
    rw [if_pos hshared]
    exact draws_modify (fun _ => ⟨rfl, rfl⟩) c
  | none =>
    have hown : ¬ (entersRootEnd g (g.flow f) ∧ c.rootSink.isSome) := by
      rintro ⟨henters, hsome⟩
      rw [if_pos henters] at hroot
      rw [hroot] at hsome
      cases hsome
    rw [if_neg hown]
    have hadd : Draws [flowName g f] [] (addPlace
        { name := flowName g f, role := flowRole g (g.flow f), process := (g.flow f).process }) :=
      draws_addPlace rfl
    refine hadd.before ?_ c
    exact fun p => draws_modify fun _ => ⟨rfl, rfl⟩

theorem draws_forM_addFlowPlace (l : List FlowId) :
    DrawsAt ((placed g c.rootSink.isSome l).map (flowName g)) [] c (l.forM (addFlowPlace g) c) := by
  induction l generalizing c with
  | nil => exact draws_pure _ c
  | cons f l ih =>
    have hbind : ∀ sunk, (∀ c₁, addFlowPlace g f c = .ok () c₁ → c₁.rootSink.isSome = sunk) →
        DrawsAt ((if entersRootEnd g (g.flow f) ∧ c.rootSink.isSome then [] else [flowName g f]) ++
          (placed g sunk l).map (flowName g)) [] c ((f :: l).forM (addFlowPlace g) c) := by
      intro sunk hsunk
      rw [List.forM]
      exact (draws_addFlowPlace f).bind fun _ c₁ hrun => hsunk c₁ hrun ▸ ih
    rw [placed]
    by_cases henters : entersRootEnd g (g.flow f)
    · have hsunk : ∀ c₁, addFlowPlace g f c = .ok () c₁ → c₁.rootSink.isSome = true := by
        intro c₁ hrun
        obtain ⟨p, _, hsink, rfl⟩ | ⟨_, p, _, _, rfl⟩ := addFlowPlace_eq_ok hrun
        · simp [hsink]
        · simp [henters]
      have h := hbind true hsunk
      cases hsink : c.rootSink.isSome with
      | true => simpa [henters, hsink] using h
      | false => simpa [henters, hsink] using h
    · have hsunk : ∀ c₁, addFlowPlace g f c = .ok () c₁ → c₁.rootSink.isSome = c.rootSink.isSome := by
        intro c₁ hrun
        obtain ⟨_, h, _⟩ | ⟨_, p, _, _, rfl⟩ := addFlowPlace_eq_ok hrun
        · exact absurd h henters
        · simp [henters]
      simpa [henters] using hbind _ hsunk

/-! ## Nodes -/

theorem draws_addNodeStep {label : Option String} (label' : Option String) :
    Draws [] ([g.passStep n label'].map (·.name)) (addNodeStep g n label) := by
  refine Draws.after (draws_inPlace n) fun _ _ _ _ => ?_
  exact Draws.after (draws_outPlace n) fun _ _ _ _ => draws_addStep_unit rfl

theorem draws_addChoices {inputs outputs : List PlaceId} {R R' : FlowId → PlaceId → Prop}
    (hin : List.Forall₂ R (g.inOrder (g.node n).incoming) inputs)
    (hout : List.Forall₂ R' (g.inOrder (g.node n).outgoing) outputs) :
    Draws [] ((g.choiceSteps n).map (·.name)) (addChoices (g.node n) inputs outputs) := by
  have hbranches : List.Forall₂ (fun _ _ => True) (g.branches n)
      (inputs.flatMap fun p => outputs.map fun q => (p, q)) :=
    List.rel_flatMap hin fun _ _ _ => List.rel_map (fun _ _ _ => trivial) hout
  rw [choiceSteps, List.map_map, List.map_eq_flatMap]
  refine draws_steps_forM₂ (forall₂_zipIdx hbranches 0) ?_
  rintro ⟨_, i⟩ ⟨⟨p, q⟩, j⟩ ⟨-, hij⟩
  cases hij
  exact draws_addStep_unit rfl

theorem draws_addGateway {kind : GatewayKind} {direction : GatewayDirection}
    (hkind : (g.node n).kind = .gateway kind direction) (hinclusive : kind ≠ .inclusive) :
    Draws [] ((g.nodeSteps n).map (·.name)) (addGateway g n kind direction) := by
  simp only [addGateway]
  split
  · rename_i hone
    have hstep : (g.nodeSteps n).map (·.name) = [g.passStep n none].map (·.name) := by
      rw [nodeSteps, hkind]
      cases kind with
      | parallel => rfl
      | exclusive =>
        change (if g.IsPlain n direction then _ else _ : List Step).map _ = _
        rw [if_pos (show g.IsPlain n direction from hone)]
      | inclusive => exact absurd rfl hinclusive
    rw [hstep]
    exact draws_addNodeStep none
  · rename_i hmany
    split
    · exact draws_lacks .gatewayWithoutIncoming
    split
    · exact draws_lacks .gatewayWithoutOutgoing
    refine Draws.after (draws_sortedPlaces _) fun ps _ c₁ hps => ?_
    obtain ⟨-, hps⟩ := sortedPlaces_inOrder hps
    refine Draws.after (draws_sortedPlaces _) fun qs _ c₂ hqs => ?_
    obtain ⟨-, hqs⟩ := sortedPlaces_inOrder hqs
    rw [nodeSteps, hkind]
    cases kind with
    | parallel => exact draws_addStep_unit rfl
    | exclusive =>
      change Draws [] ((if g.IsPlain n direction then _ else _ : List Step).map _) _
      rw [if_neg (show ¬ g.IsPlain n direction from hmany)]
      exact draws_addChoices hps hqs
    | inclusive => exact absurd rfl hinclusive

theorem draws_markStart (p : PlaceId) : Draws [] [] (markStart p) := by
  refine draws_of_same (fun c _ c' h => ?_) fun c e c' h => ?_
  · obtain ⟨m, -, rfl⟩ := markStart_eq_ok.1 h
    exact ⟨rfl, rfl⟩
  · unfold markStart at h
    rw [get_bind] at h
    cases hadd : c.initial.add p 1 with
    | ok initial =>
      rw [hadd] at h
      cases h
    | error f =>
      rw [hadd] at h
      cases h
      exact id

theorem draws_addNode (hsupported : Supported g) :
    Draws [] ((g.nodeSteps n).map (·.name)) (addNode g n) := by
  simp only [addNode]
  cases hkind : (g.node n).kind with
  | startEvent trigger =>
    have hnone : g.nodeSteps n = [] := by rw [nodeSteps, hkind]
    rw [hnone]
    refine Draws.after (draws_outPlace n) fun p _ _ _ => ?_
    split
    · exact draws_markStart p
    · exact draws_pure ()
  | endEvent trigger =>
    have hnone : g.nodeSteps n = [] := by rw [nodeSteps, hkind]
    rw [hnone]
    refine Draws.after (draws_inPlace n) fun p _ _ _ => ?_
    split
    · exact draws_modify fun _ => ⟨rfl, rfl⟩
    · exact draws_pure ()
  | task | catchEvent | throwEvent =>
    rw [nodeSteps, hkind]
    exact draws_addNodeStep _
  | gateway kind direction =>
    refine draws_addGateway hkind ?_
    rintro rfl
    exact hsupported n direction hkind
  | subprocess | boundaryEvent =>
    rw [nodeSteps, hkind]
    exact draws_pure ()

theorem draws_addNodes (hsupported : Supported g) :
    Draws [] ((g.sortedNodes.flatMap g.nodeSteps).map (·.name)) (addNodes g) := by
  rw [List.map_flatMap]
  exact draws_steps_forM fun n _ => draws_addNode hsupported

/-! ## Subprocesses -/

theorem map_number (l : List α) (F : Nat → String) :
    (l.zipIdx.map fun e => F e.2) = (List.range l.length).map F := by
  rw [List.range_eq_range', ← List.zipIdx_map_snd, List.map_map]
  rfl

theorem draws_joinSubprocess (n : NodeId) :
    Draws [] ((g.joinSteps n).map (·.name)) (joinSubprocess g n) := by
  unfold joinSubprocess
  refine Draws.after (draws_inPlace n) fun before _ _ _ => ?_
  refine Draws.after (draws_outPlace n) fun behind _ _ _ => ?_
  refine Draws.after (draws_mapM_nil fun m _ => draws_outPlace m) fun starts _ _ _ => ?_
  refine draws_unless ?_
  refine Draws.after (draws_mapM_nil fun m _ => draws_inPlace m) fun ends c₁ c₂ hends => ?_
  refine draws_unless ?_
  obtain ⟨-, hends⟩ := mapM_inPlace_eq_ok hends
  have hexits : (g.exitSteps n).map (·.name) = ends.zipIdx.flatMap fun e =>
      [exitName (g.node n).id (g.node n).process ends.length e.2] := by
    rw [exitSteps, List.map_map, ← List.map_eq_flatMap, map_number, ← hends.length_eq]
    exact map_number _ (exitName _ _ _)
  refine Draws.step (draws_addStep rfl) fun _ _ _ _ => ?_
  refine Draws.before ?_ fun _ => draws_pure _
  rw [hexits]
  exact draws_steps_mapM fun e _ => draws_addStep rfl

theorem draws_joinSubprocesses :
    Draws [] ((g.subprocessesInnermostFirst.flatMap g.joinSteps).map (·.name)) (joinSubprocesses g) := by
  rw [List.map_flatMap]
  exact draws_steps_mapM fun n _ => draws_joinSubprocess n

/-! ## Events on tasks -/

theorem draws_addTaskBoundaries :
    Draws [] (((g.select (·.kind = .task)).flatMap (g.taskEventSteps showEvents)).map (·.name))
      (addTaskBoundaries g showEvents) := by
  rw [List.map_flatMap]
  refine draws_steps_forM fun task _ => ?_
  rw [taskEventSteps, List.map_map, List.map_eq_flatMap]
  refine draws_steps_forM fun m _ => ?_
  refine Draws.after (draws_inPlace task) fun _ _ _ _ => ?_
  exact Draws.after (draws_outPlace m) fun _ _ _ _ => draws_addStep_unit rfl

/-! ## Events on subprocesses -/

theorem draws_addResets (targets : List PlaceId) (t : TransitionId) : Draws [] [] (addResets targets t) := by
  refine draws_forM_nil fun p _ => draws_get fun c => ?_
  split
  · exact draws_pure _
  · exact draws_addArc _

theorem draws_clearOnEntry (p : PlaceId) (targets : List PlaceId) : Draws [] [] (clearOnEntry p targets) :=
  draws_get fun _ => draws_forM_nil fun t _ => draws_addResets targets t

theorem draws_collectEnd (found : List PlaceId) (n : NodeId) : Draws [] [] (collectEnd g found n) := by
  refine Draws.after (draws_inPlace n) fun p _ _ _ => draws_get fun c => ?_
  split
  · exact draws_pure _
  · exact draws_pure _

theorem draws_mergeInto (main duplicate : PlaceId) : Draws [] [] (mergeInto main duplicate) := by
  refine draws_get fun c => ?_
  refine Draws.after (draws_forM_nil fun t _ => draws_addArc _) fun _ _ _ _ => ?_
  exact Draws.after (draws_removePlace duplicate) fun _ _ _ _ => draws_pure ()

theorem draws_mergeRaisingEnds {event : Node} {trigger : BoundaryTrigger} :
    Draws [] [] (mergeRaisingEnds g s event trigger) := by
  refine Draws.after (draws_foldlM_nil fun m _ found => draws_collectEnd found m) fun ps _ _ _ => ?_
  cases ps with
  | nil => exact draws_throw id
  | cons main duplicates =>
    exact Draws.after (draws_forM_nil fun p _ => draws_mergeInto main p) fun _ _ _ _ => draws_pure main

/-- The names of the gates of the messages among some events. -/
def gateNames (g : ProcessGraph) (activity : String) (m : NodeId) : List String :=
  if IsMessageOn g activity m then [joinName ["boundary", (g.node m).id, activity]] else []

theorem draws_addGate (event : Node) (t : TransitionId) :
    Draws [joinName ["boundary", event.id, s.id]] [] (addGate s event t) := by
  refine Draws.before (draws_addPlace rfl) fun p => ?_
  refine Draws.after (draws_addArc _) fun _ _ _ _ => ?_
  refine Draws.after (draws_forM_nil fun t _ => draws_addArc _) fun _ _ _ _ => ?_
  exact draws_addArc _

theorem draws_addSubprocessBoundary (hm : m ∈ g.boundaryEventsOf s.id) (found : Interruptions) :
    Draws (gateNames g s.id m) [boundaryName (g.node m).id s.parent]
      (addSubprocessBoundary g showEvents s found m) := by
  obtain ⟨-, trigger, hkind⟩ := mem_boundaryEventsOf.1 hm
  simp only [addSubprocessBoundary, hkind]
  refine Draws.after (draws_outPlace m) fun q _ _ _ => ?_
  refine Draws.step (draws_addTransition rfl) fun t _ _ _ => ?_
  refine Draws.after (draws_addArc _) fun _ _ _ _ => ?_
  split
  · rename_i hinternal
    have hsilent : ¬ IsMessageOn g s.id m := fun hmessage => by
      cases hkind.symm.trans hmessage
      cases hinternal
    rw [gateNames, if_neg hsilent]
    refine Draws.after draws_mergeRaisingEnds fun p _ _ _ => ?_
    exact Draws.after (draws_addArc _) fun _ _ _ _ => draws_pure _
  · rename_i hexternal
    have hmessage : IsMessageOn g s.id m := by
      cases trigger with
      | message => exact hkind
      | error | cancel => exact absurd rfl hexternal
    rw [gateNames, if_pos hmessage]
    exact Draws.before (draws_addGate _ t) fun _ => draws_pure _

theorem draws_addSubprocessBoundaries (hid : s.id = (g.node n).id) (hparent : s.parent = (g.node n).process) :
    Draws ((g.boundaryEventsOf (g.node n).id).flatMap (gateNames g (g.node n).id))
      ((g.eventSteps showEvents n).map (·.name)) (addSubprocessBoundaries g showEvents s) := by
  rw [eventSteps, List.map_map, List.map_eq_flatMap, ← hid]
  rw [addSubprocessBoundaries_eq]
  refine Draws.before (draws_foldlM fun m hm found => ?_) fun found => draws_get fun c => ?_
  · change Draws _ [boundaryName (g.node m).id (g.node n).process] _
    rw [← hparent]
    exact draws_addSubprocessBoundary hm found
  · refine Draws.after (draws_forM_nil fun p _ => draws_clearOnEntry p _) fun _ _ _ _ => ?_
    exact draws_forM_nil fun t _ => draws_addResets _ t

/-! ## Terminate ends -/

theorem draws_terminateSubprocess (hid : s.id = (g.node n).id) (hparent : s.parent = (g.node n).process) :
    Draws [] ((g.terminationSteps n).map (·.name)) (terminateSubprocess g s) := by
  rw [terminationSteps, List.map_map, List.map_eq_flatMap, ← hid, ← hparent]
  refine Draws.after (draws_mapM_nil fun m _ => draws_inPlace m) fun ps _ _ hps => ?_
  refine draws_steps_forM₂ (forall₂_zip (mapM_inPlace_eq_ok hps).2) ?_
  rintro m ⟨_, p⟩ ⟨rfl, -⟩
  refine draws_get fun c => ?_
  exact Draws.after (draws_clearOnEntry _ _) fun _ _ _ _ => draws_addStep_unit rfl

theorem draws_terminateRoot : Draws [] (g.rootTerminationSteps.map (·.name)) (terminateRoot g) := by
  rw [rootTerminationSteps, List.map_map, List.map_eq_flatMap]
  refine Draws.after (draws_mapM_nil fun m _ => draws_inPlace m) fun ps _ _ hps => ?_
  refine draws_steps_forM₂ (forall₂_zip (mapM_inPlace_eq_ok hps).2) ?_
  rintro m ⟨_, p⟩ ⟨rfl, -⟩
  refine draws_get fun c => ?_
  split
  · exact draws_lacks .rootWithoutNormalEnd
  · refine draws_get fun c' => ?_
    exact Draws.after (draws_clearOnEntry _ _) fun _ _ _ _ => draws_addStep_unit rfl

/-! ## The whole -/

theorem draws_finish (hid : s.id = (g.node n).id) (hparent : s.parent = (g.node n).process) :
    Draws ((g.boundaryEventsOf (g.node n).id).flatMap (gateNames g (g.node n).id))
      ((g.finishSteps showEvents n).map (·.name)) (finish g showEvents s) := by
  rw [finishSteps, List.map_append, ← List.append_nil (List.flatMap _ _)]
  refine (draws_addSubprocessBoundaries hid hparent).bind fun _ _ _ _ => ?_
  refine (draws_terminateSubprocess hid hparent).before fun _ => ?_
  exact draws_modify fun _ => ⟨rfl, rfl⟩

/-- The names of the places that `construct` adds: those of flows with places of their own, and those of
gates. -/
def placeNames (g : ProcessGraph) : List String :=
  (placed g false g.sortedFlows).map (flowName g) ++ g.subprocessesInnermostFirst.flatMap fun n =>
    (g.boundaryEventsOf (g.node n).id).flatMap (gateNames g (g.node n).id)

theorem joinSubprocesses_eq_ok {l : List JoinedSubprocess} (h : joinSubprocesses g c = .ok l c') :
    List.Forall₂ (fun n s => s.id = (g.node n).id ∧ s.parent = (g.node n).process)
      g.subprocessesInnermostFirst l := by
  obtain ⟨-, hall⟩ := forall₂_of_mapM (R := fun _ _ => True) (fun _ => trivial)
    (fun _ _ _ _ _ => trivial) (fun _ _ _ _ _ _ => trivial) h
  refine hall.imp ?_
  rintro n s ⟨_, _, -, hrun, -⟩
  obtain ⟨hid, hparent, -⟩ := joinSubprocess_eq_ok hrun
  exact ⟨hid, hparent⟩

theorem draws_construct (hsupported : Supported g) :
    DrawsAt (placeNames g) ((g.steps showEvents).map (·.name)) (start g) (construct g showEvents (start g)) := by
  simp only [steps, List.map_append, List.append_assoc]
  refine DrawsAt.places (draws_forM_addFlowPlace g.sortedFlows) fun _ c₁ _ => ?_
  refine Draws.steps (draws_addNodes hsupported) (fun _ _ _ _ => ?_) c₁
  refine Draws.steps draws_joinSubprocesses fun l _ _ hjoin => ?_
  refine Draws.steps draws_addTaskBoundaries fun _ _ _ _ => ?_
  have hfinish : Draws
      (g.subprocessesInnermostFirst.flatMap fun n =>
        (g.boundaryEventsOf (g.node n).id).flatMap (gateNames g (g.node n).id))
      ((g.subprocessesInnermostFirst.flatMap (g.finishSteps showEvents)).map (·.name))
      (l.forM (finish g showEvents)) := by
    rw [List.map_flatMap]
    exact draws_forM₂ (joinSubprocesses_eq_ok hjoin) fun n s h => draws_finish h.1 h.2
  rw [← List.append_nil (List.flatMap _ g.subprocessesInnermostFirst)]
  exact hfinish.bind fun _ _ _ _ => draws_terminateRoot

/-- If the names that it draws are pairwise different, `construct` meets none that is taken. -/
theorem not_isDuplicate_of_construct (hsupported : Supported g) (hplaces : (placeNames g).Nodup)
    (hsteps : ((g.steps showEvents).map (·.name)).Nodup) {e : ConversionError}
    (h : construct g showEvents (start g) = .error e c) : ¬ e.IsDuplicate := by
  have hends := draws_construct hsupported (frees_empty hplaces)
    (frees_empty hsteps)
  rw [h] at hends
  exact hends

end Construction

end ProcessNet
