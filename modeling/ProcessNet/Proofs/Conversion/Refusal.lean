/-
When a construction succeeds. Each part of it checks something of the process: it succeeds only where that
holds, and where it fails some node lacks something, so that it does not hold, or the name of a new node is
taken. No look-up fails and no arc is drawn to a node that is gone, since what is needed is there.
-/
import ProcessNet.Proofs.Conversion.Closing
import ProcessNet.Proofs.Conversion.Drawn
import ProcessNet.Proofs.Conversion.Furnished
import ProcessNet.Proofs.Net.Editing

namespace ProcessNet

/-- The construction failed with `lacks`. -/
def ConversionError.IsDeficient : ConversionError → Prop
  | .deficient _ _ => True
  | _ => False

namespace Construction

open Identifier Net ProcessGraph

variable {α β : Type} {g : ProcessGraph} {c c' d : Construction} {f : FlowId} {p : PlaceId} {n m : NodeId}
  {s : JoinedSubprocess} {showEvents : Bool} {P Q : Prop} {post post' : α → Construction → Prop}
  {rest : β → Construction → Prop}

/-! ## Programs that check something -/

/-- The program succeeds only where `P` holds. It fails only where a name is taken, or where `P` does not
hold and some node lacks something. -/
def Checks (post : α → Construction → Prop) (P : Prop) (x : ConstructionM α) (c : Construction) : Prop :=
  Ends (fun a d => P ∧ post a d) (fun e _ => e.IsDuplicate ∨ (e.IsDeficient ∧ ¬ P)) (x c)

theorem Checks.mono {x : ConstructionM α} (h : Checks post P x c) (hpost : ∀ a d, post a d → post' a d)
    (hiff : P ↔ Q) : Checks post' Q x c := by
  refine Ends.imp h (fun a d hd => ⟨hiff.1 hd.1, hpost a d hd.2⟩) fun _ _ he => ?_
  rwa [← hiff]

theorem Checks.iff {x : ConstructionM α} (h : Checks post P x c) (hiff : P ↔ Q) : Checks post Q x c :=
  h.mono (fun _ _ => id) hiff

/-- What is known of a program that succeeds may be used for what holds behind it. -/
theorem Checks.of {x : ConstructionM α} (h : Checks post P x c)
    (hpost : ∀ a d, x c = .ok a d → P → post a d → post' a d) : Checks post' P x c := by
  unfold Checks at h ⊢
  cases hrun : x c with
  | error e d =>
    rw [hrun] at h
    exact h
  | ok a d =>
    rw [hrun] at h
    exact ⟨h.1, hpost a d hrun h.1 h.2⟩

theorem Checks.bind {x : ConstructionM α} {f : α → ConstructionM β} (hx : Checks post P x c)
    (hf : ∀ a d, x c = .ok a d → P → post a d → Checks rest Q (f a) d) :
    Checks rest (P ∧ Q) (x >>= f) c := by
  refine Ends.bind ?_
  unfold Checks at hx
  cases hrun : x c with
  | error e d =>
    rw [hrun] at hx
    exact hx.imp_right fun ⟨he, hP⟩ => ⟨he, fun h => hP h.1⟩
  | ok a d =>
    rw [hrun] at hx
    obtain ⟨hP, hd⟩ := hx
    have hrest := hf a d hrun hP hd
    unfold Checks at hrest
    refine hrest.imp (fun _ _ h => ⟨⟨hP, h.1⟩, h.2⟩) fun _ _ h => ?_
    exact h.imp_right fun ⟨he, hQ⟩ => ⟨he, fun h => hQ h.2⟩

/-- Behind a part that checks nothing. -/
theorem Checks.after {x : ConstructionM α} {f : α → ConstructionM β} (hx : Checks post True x c)
    (hf : ∀ a d, x c = .ok a d → post a d → Checks rest Q (f a) d) : Checks rest Q (x >>= f) c :=
  (hx.bind fun a d hrun _ hd => hf a d hrun hd).iff (iff_of_eq (true_and Q))

/-- In front of a part that checks nothing. -/
theorem Checks.before {x : ConstructionM α} {f : α → ConstructionM β} (hx : Checks post P x c)
    (hf : ∀ a d, x c = .ok a d → P → post a d → Checks rest True (f a) d) :
    Checks rest P (x >>= f) c :=
  (hx.bind hf).iff (iff_of_eq (and_true P))

theorem checks_pure {a : α} (hc : post a c) : Checks post True (pure a : ConstructionM α) c :=
  ⟨trivial, hc⟩

theorem checks_get {f : Construction → ConstructionM β} (h : Checks rest Q (f c) c) :
    Checks rest Q (get >>= f) c := h

theorem checks_lacks {x : Deficiency} (hP : ¬ P) : Checks post P (lacks g n x : ConstructionM α) c :=
  .inr ⟨trivial, hP⟩

theorem checks_modify {h : Construction → Construction} {post : PUnit → Construction → Prop}
    (hc : post () (h c)) : Checks post True (modify h : ConstructionM PUnit) c :=
  ⟨trivial, hc⟩

section Loops

variable {I : List α → Construction → Prop} {R : α → Prop} {l : List α}

/-- What `forM` checks are the checks of its turns. -/
theorem Checks.forM {f : α → ConstructionM PUnit}
    (hturn : ∀ a l d, I (a :: l) d → Checks (fun _ => I l) (R a) (f a) d) (hc : I l c) :
    Checks (fun _ => I []) (∀ a ∈ l, R a) (l.forM f) c := by
  induction l generalizing c with
  | nil => exact ⟨fun _ ha => absurd ha List.not_mem_nil, hc⟩
  | cons a l ih =>
    rw [List.forM]
    refine ((hturn a l c hc).bind fun _ d _ _ hd => ih hd).iff ?_
    rw [List.forall_mem_cons]

theorem Checks.mapM {f : α → ConstructionM β}
    (hturn : ∀ a l d, I (a :: l) d → Checks (fun _ => I l) (R a) (f a) d) (hc : I l c) :
    Checks (fun _ => I []) (∀ a ∈ l, R a) (l.mapM f) c := by
  induction l generalizing c with
  | nil =>
    rw [List.mapM_nil]
    exact ⟨fun _ ha => absurd ha List.not_mem_nil, hc⟩
  | cons a l ih =>
    rw [List.mapM_cons]
    refine ((hturn a l c hc).bind fun _ d _ _ hd => ?_).iff List.forall_mem_cons.symm
    exact (ih hd).before fun _ d' _ _ hd' => checks_pure hd'

theorem Checks.foldlM {J : List α → β → Construction → Prop} {f : β → α → ConstructionM β} {b : β}
    (hturn : ∀ a l b d, J (a :: l) b d → Checks (J l) (R a) (f b a) d) (hc : J l b c) :
    Checks (J []) (∀ a ∈ l, R a) (l.foldlM f b) c := by
  induction l generalizing b c with
  | nil => exact ⟨fun _ ha => absurd ha List.not_mem_nil, hc⟩
  | cons a l ih =>
    rw [List.foldlM_cons]
    refine ((hturn a l b c hc).bind fun _ d _ _ hd => ih hd).iff ?_
    rw [List.forall_mem_cons]

end Loops

/-! ## Programs that take nothing away -/

/-- The net can be edited without a fault. -/
structure Sturdy (c : Construction) : Prop where
  consistent : c.net.Consistent
  fits : c.net.RowsFit

/-- No node is taken away, and the flows have the places that they had. -/
structure Kept (c d : Construction) : Prop where
  sturdy : Sturdy d
  flowPlaces : d.flowPlaces = c.flowPlaces
  rootSink : d.rootSink = c.rootSink
  place : ∀ p, c.net.hasPlace p → d.net.hasPlace p
  transition : ∀ t, c.net.hasTransition t → d.net.hasTransition t

/-- Besides, no place is marked. -/
structure Grown (c d : Construction) : Prop extends Kept c d where
  initial : d.initial = c.initial

theorem Grown.refl (hc : Sturdy c) : Grown c c :=
  ⟨⟨hc, rfl, rfl, fun _ => id, fun _ => id⟩, rfl⟩

theorem Kept.trans (h : Kept c d) (k : Kept d c') : Kept c c' where
  sturdy := k.sturdy
  flowPlaces := k.flowPlaces.trans h.flowPlaces
  rootSink := k.rootSink.trans h.rootSink
  place p hp := k.place p (h.place p hp)
  transition t ht := k.transition t (h.transition t ht)

theorem Grown.trans (h : Grown c d) (k : Grown d c') : Grown c c' :=
  ⟨h.toKept.trans k.toKept, k.initial.trans h.initial⟩

/-- The program checks `P`, and takes nothing away. -/
def Grows (P : Prop) (x : ConstructionM α) (c : Construction) : Prop := Checks (fun _ => Grown c) P x c

theorem Grows.iff {x : ConstructionM α} (h : Grows P x c) (hiff : P ↔ Q) : Grows Q x c :=
  Checks.iff h hiff

theorem Grows.bind {x : ConstructionM α} {f : α → ConstructionM β} (hx : Grows P x c)
    (hf : ∀ a d, x c = .ok a d → P → Grown c d → Grows Q (f a) d) : Grows (P ∧ Q) (x >>= f) c :=
  Checks.bind hx fun a d hrun hP hd => (hf a d hrun hP hd).of fun _ _ _ _ => hd.trans

theorem Grows.after {x : ConstructionM α} {f : α → ConstructionM β} (hx : Grows True x c)
    (hf : ∀ a d, x c = .ok a d → Grown c d → Grows Q (f a) d) : Grows Q (x >>= f) c :=
  (hx.bind fun a d hrun _ hd => hf a d hrun hd).iff (iff_of_eq (true_and Q))

theorem Grows.before {x : ConstructionM α} {f : α → ConstructionM β} (hx : Grows P x c)
    (hf : ∀ a d, x c = .ok a d → P → Grown c d → Grows True (f a) d) : Grows P (x >>= f) c :=
  (hx.bind hf).iff (iff_of_eq (and_true P))

theorem grows_pure (hc : Sturdy c) (a : α) : Grows True (pure a : ConstructionM α) c :=
  checks_pure (.refl hc)

theorem Grows.forM {P : α → Prop} {f : α → ConstructionM PUnit} {l : List α} (hc : Sturdy c)
    (hturn : ∀ a ∈ l, ∀ d, Grown c d → Grows (P a) (f a) d) : Grows (∀ a ∈ l, P a) (l.forM f) c := by
  refine (Checks.forM (I := fun rest d => rest ⊆ l ∧ Grown c d) (fun a rest d hd => ?_)
    ⟨List.Subset.refl l, .refl hc⟩).of fun _ _ _ _ h => h.2
  obtain ⟨ha, hrest⟩ := List.cons_subset.1 hd.1
  exact (hturn a ha d hd.2).of fun _ _ _ _ h => ⟨hrest, hd.2.trans h⟩

theorem Grows.mapM {P : α → Prop} {f : α → ConstructionM β} {l : List α} (hc : Sturdy c)
    (hturn : ∀ a ∈ l, ∀ d, Grown c d → Grows (P a) (f a) d) : Grows (∀ a ∈ l, P a) (l.mapM f) c := by
  refine (Checks.mapM (I := fun rest d => rest ⊆ l ∧ Grown c d) (fun a rest d hd => ?_)
    ⟨List.Subset.refl l, .refl hc⟩).of fun _ _ _ _ h => h.2
  obtain ⟨ha, hrest⟩ := List.cons_subset.1 hd.1
  exact (hturn a ha d hd.2).of fun _ _ _ _ h => ⟨hrest, hd.2.trans h⟩

/-- `forM` whose turns check nothing. -/
theorem grows_forM {f : α → ConstructionM PUnit} {l : List α} (hc : Sturdy c)
    (hturn : ∀ a ∈ l, ∀ d, Grown c d → Grows True (f a) d) : Grows True (l.forM f) c :=
  (Grows.forM hc hturn).iff ⟨fun _ => trivial, fun _ _ _ => trivial⟩

theorem grows_mapM {f : α → ConstructionM β} {l : List α} (hc : Sturdy c)
    (hturn : ∀ a ∈ l, ∀ d, Grown c d → Grows True (f a) d) : Grows True (l.mapM f) c :=
  (Grows.mapM hc hturn).iff ⟨fun _ => trivial, fun _ _ _ => trivial⟩

theorem grows_foldlM {f : β → α → ConstructionM β} {l : List α} {b : β} (hc : Sturdy c)
    (hturn : ∀ a ∈ l, ∀ b d, Grown c d → Grows True (f b a) d) : Grows True (l.foldlM f b) c := by
  refine (Checks.foldlM (J := fun rest _ d => rest ⊆ l ∧ Grown c d) (R := fun _ => True)
    (fun a rest b d hd => ?_) ⟨List.Subset.refl l, .refl hc⟩).mono (fun _ _ h => h.2)
    (iff_true_intro fun _ _ => trivial)
  obtain ⟨ha, hrest⟩ := List.cons_subset.1 hd.1
  exact (hturn a ha b d hd.2).of fun _ _ _ _ h => ⟨hrest, hd.2.trans h⟩

/-! ## Single additions -/

/-- `onNet` with an edit of the net that meets no fault. -/
theorem checks_onNet (hc : Sturdy c) {f : Net → Except NetError (Net × α)} {e : Net.Edit}
    (hedit : c.net.edit e = (f c.net).map (·.1))
    (hpost : ∀ net a, f c.net = .ok (net, a) → Sturdy { c with net } → post a { c with net })
    (herror : ∀ e', f c.net = .error e' → (∃ x, e' = .fault x) ∨ ConversionError.IsDuplicate (.net e')) :
    Checks post True (onNet f) c := by
  unfold Checks
  cases hrun : onNet f c with
  | ok a d =>
    obtain ⟨net, hf, rfl⟩ := onNet_eq_ok.1 hrun
    obtain ⟨hconsistent, hfits⟩ := hc.consistent.edit hc.fits (e := e) (by rw [hedit, hf]; rfl)
    exact ⟨trivial, hpost net a hf ⟨hconsistent, hfits⟩⟩
  | error e' d =>
    obtain ⟨e', hf, rfl⟩ := onNet_eq_error hrun
    rcases herror e' hf with ⟨x, rfl⟩ | hduplicate
    · exact absurd (by rw [hedit, hf]; rfl) ((hc.consistent.safe hc.fits).noFault e x)
    · exact .inl hduplicate

theorem exists_fault_of_map {r : Except Fault α} {h : α → β} {e : NetError}
    (he : (NetError.ofFault r).map h = .error e) : ∃ x, e = .fault x := by
  cases r with
  | ok a => cases he
  | error x =>
    cases he
    exact ⟨x, rfl⟩

theorem hasPlace_mono {net net' : Net} (h : ∀ q, net'.place? q = net.place? q) (q : PlaceId)
    (hq : net.hasPlace q) : net'.hasPlace q := by
  rw [hasPlace, h]
  exact hq

theorem hasTransition_mono {net net' : Net} (h : ∀ t, net'.transition? t = net.transition? t)
    (t : TransitionId) (ht : net.hasTransition t) : net'.hasTransition t := by
  rw [hasTransition, h]
  exact ht

theorem grows_addPlace (hc : Sturdy c) (x : Place) : Grows True (addPlace x) c := by
  refine checks_onNet hc (e := .addPlace x) rfl (fun net p hadd hnet => ?_) fun e he => ?_
  · have hadded := hc.consistent.addPlace hadd
    refine ⟨⟨hnet, rfl, rfl, fun q hq => ?_, hasTransition_mono hadded.transition?⟩, rfl⟩
    rw [hasPlace, hadded.place?]
    split
    · rfl
    · exact hq
  · unfold Net.addPlace at he
    split at he
    · cases he
      exact .inr trivial
    · dsimp only at he
      split at he
      · cases he
      · cases he
        exact .inl ⟨_, rfl⟩

theorem grows_addTransition (hc : Sturdy c) (x : Transition) : Grows True (addTransition x) c := by
  refine checks_onNet hc (e := .addTransition x) rfl (fun net t hadd hnet => ?_) fun e he => ?_
  · have hadded := hc.consistent.addTransition hadd
    refine ⟨⟨hnet, rfl, rfl, hasPlace_mono hadded.place?, fun u hu => ?_⟩, rfl⟩
    rw [hasTransition, hadded.transition?]
    split
    · rfl
    · exact hu
  · unfold Net.addTransition at he
    split at he
    · cases he
      exact .inr trivial
    · dsimp only at he
      split at he
      · cases he
      · cases he
        exact .inl ⟨_, rfl⟩

theorem live_of_addTransition (hc : Sturdy c) {x : Transition} {t : TransitionId}
    (h : addTransition x c = .ok t d) : d.net.hasTransition t := by
  obtain ⟨net, rfl, hadded⟩ := addTransition_effect hc.consistent h
  exact hasTransition_iff.2 ⟨x, hadded.transition?_self⟩

theorem live_of_addPlace (hc : Sturdy c) {x : Place} (h : addPlace x c = .ok p d) : d.net.hasPlace p := by
  obtain ⟨net, rfl, -, hadded⟩ := addPlace_effect hc.consistent h
  exact hasPlace_iff.2 ⟨x, hadded.place?_self⟩

/-- `addArc` between nodes that are there. -/
theorem grows_addArc (hc : Sturdy c) {a : Arc} (hp : c.net.hasPlace a.place)
    (ht : c.net.hasTransition a.transition) : Grows True (addArc a) c := by
  refine Grows.before (checks_onNet hc (e := .addArc a) rfl (fun net new hadd hnet => ?_) fun e he => ?_)
    fun _ d _ _ hd => grows_pure hd.sturdy ()
  · have hadded := hc.consistent.addArc hadd
    exact ⟨⟨hnet, rfl, rfl, hasPlace_mono hadded.nodes.place?, hasTransition_mono hadded.nodes.transition?⟩,
      rfl⟩
  · rw [Net.addArc, if_pos hp, if_pos ht] at he
    exact .inl (exists_fault_of_map he)

theorem grows_addArcs (hc : Sturdy c) {arc : α → Arc} {l : List α}
    (hlive : ∀ x ∈ l, c.net.hasPlace (arc x).place ∧ c.net.hasTransition (arc x).transition) :
    Grows True (l.forM fun x => addArc (arc x)) c :=
  grows_forM hc fun x hx _ hd =>
    grows_addArc hd.sturdy (hd.place _ (hlive x hx).1) (hd.transition _ (hlive x hx).2)

theorem grows_addStep (hc : Sturdy c) {x : Transition} {inputs outputs : List PlaceId}
    (hin : ∀ p ∈ inputs, c.net.hasPlace p) (hout : ∀ p ∈ outputs, c.net.hasPlace p) :
    Grows True (addStep x inputs outputs) c := by
  refine (grows_addTransition hc x).after fun t d hadd hd => ?_
  have ht := live_of_addTransition hc hadd
  refine (grows_addArcs hd.sturdy fun p hp => ⟨hd.place p (hin p hp), ht⟩).after fun _ d' _ hd' => ?_
  refine (grows_addArcs hd'.sturdy fun p hp => ?_).after fun _ d'' _ hd'' => grows_pure hd''.sturdy t
  exact ⟨hd'.place p (hd.place p (hout p hp)), hd'.transition t ht⟩

/-- `addStep` where the number of the transition is not needed. -/
theorem grows_addStep_unit (hc : Sturdy c) {x : Transition} {inputs outputs : List PlaceId}
    (hin : ∀ p ∈ inputs, c.net.hasPlace p) (hout : ∀ p ∈ outputs, c.net.hasPlace p) :
    Grows True (do let _ ← addStep x inputs outputs) c :=
  (grows_addStep hc hin hout).after fun _ _ _ hd => grows_pure hd.sturdy ()

theorem grows_addResets (hc : Sturdy c) {targets : List PlaceId} {t : TransitionId}
    (hlive : ∀ p ∈ targets, c.net.hasPlace p) (ht : c.net.hasTransition t) :
    Grows True (addResets targets t) c := by
  refine grows_forM hc fun p hp d hd => ?_
  change Grows True (if _ then _ else _) d
  split
  · exact grows_pure hd.sturdy ()
  · exact grows_addArc hd.sturdy (hd.place p (hlive p hp)) (hd.transition t ht)

theorem grows_clearOnEntry (hc : Sturdy c) {targets : List PlaceId}
    (hlive : ∀ q ∈ targets, c.net.hasPlace q) : Grows True (clearOnEntry p targets) c := by
  refine grows_forM hc fun t ht d hd => ?_
  have ha := (mem_producers hc.consistent.mirrored).1 ht
  exact grows_addResets hd.sturdy (fun q hq => hd.place q (hlive q hq))
    (hd.transition t (hc.consistent.liveTransition _ ha))

theorem live_of_mem_scopePlaces {net : Net} {process : String} (h : p ∈ scopePlaces g net process) :
    net.hasPlace p := by
  obtain ⟨⟨q, x⟩, hmem, rfl⟩ := List.mem_map.1 h
  exact hasPlace_iff.2 ⟨x, mem_livePlaces.1 (List.mem_filter.1 hmem).1⟩

/-! ## Places of flows -/

/-- Every flow was given a place. -/
def Provided (g : ProcessGraph) (c : Construction) : Prop :=
  ∀ f, index f < g.flows.size → ∃ p, c.flowPlaces.lookup f = some p

theorem Provided.kept (h : Provided g c) (hflows : d.flowPlaces = c.flowPlaces) : Provided g d := by
  rwa [Provided, hflows]

theorem grows_flowPlace (hc : Sturdy c) (hf : ∃ p, c.flowPlaces.lookup f = some p) :
    Grows True (flowPlace f) c := by
  obtain ⟨p, hp⟩ := hf
  have hrun : flowPlace f c = .ok p c := flowPlace_eq_ok.2 ⟨hp, rfl⟩
  rw [Grows, Checks, hrun]
  exact ⟨trivial, .refl hc⟩

theorem grows_inPlace (hg : g.Linked) (hc : Sturdy c) (hflows : Provided g c) (n : NodeId) :
    Grows ((g.node n).incoming ≠ []) (inPlace g n) c := by
  have hmem := hg.mem_incoming n
  unfold inPlace
  cases hincoming : (g.node n).incoming with
  | nil => exact checks_lacks fun h => h rfl
  | cons f rest =>
    have hf := ((hmem f).1 (hincoming ▸ List.mem_cons_self)).1
    exact (grows_flowPlace hc (hflows f hf)).iff ⟨fun _ => List.cons_ne_nil f rest, fun _ => trivial⟩

theorem grows_outPlace (hg : g.Linked) (hc : Sturdy c) (hflows : Provided g c) (n : NodeId) :
    Grows ((g.node n).outgoing ≠ []) (outPlace g n) c := by
  have hmem := hg.mem_outgoing n
  unfold outPlace
  cases houtgoing : (g.node n).outgoing with
  | nil => exact checks_lacks fun h => h rfl
  | cons f rest =>
    have hf := ((hmem f).1 (houtgoing ▸ List.mem_cons_self)).1
    exact (grows_flowPlace hc (hflows f hf)).iff ⟨fun _ => List.cons_ne_nil f rest, fun _ => trivial⟩

/-- `inPlace` of nodes that have flows there. -/
theorem grows_mapM_inPlace (hg : g.Linked) (hc : Sturdy c) (hflows : Provided g c) {l : List NodeId}
    (hl : ∀ m ∈ l, (g.node m).incoming ≠ []) : Grows True (l.mapM (inPlace g)) c :=
  grows_mapM hc fun m hm _ hd =>
    (grows_inPlace hg hd.sturdy (hflows.kept hd.flowPlaces) m).iff (iff_true_intro (hl m hm))

theorem grows_mapM_outPlace (hg : g.Linked) (hc : Sturdy c) (hflows : Provided g c) {l : List NodeId}
    (hl : ∀ m ∈ l, (g.node m).outgoing ≠ []) : Grows True (l.mapM (outPlace g)) c :=
  grows_mapM hc fun m hm _ hd =>
    (grows_outPlace hg hd.sturdy (hflows.kept hd.flowPlaces) m).iff (iff_true_intro (hl m hm))

/-- Every flow has a place that is there, and only flows into the sink share one. -/
structure Stocked (g : ProcessGraph) (c : Construction) : Prop where
  sturdy : Sturdy c
  provided : Provided g c
  live : ∀ f p, c.flowPlaces.lookup f = some p → c.net.hasPlace p
  shared : ∀ f k p, c.flowPlaces.lookup f = some p → c.flowPlaces.lookup k = some p →
    f = k ∨ (entersRootEnd g (g.flow f) ∧ entersRootEnd g (g.flow k))

theorem Stocked.kept (h : Stocked g c) (hd : Kept c d) : Stocked g d where
  sturdy := hd.sturdy
  provided := h.provided.kept hd.flowPlaces
  live f p hf := hd.place p (h.live f p (hd.flowPlaces ▸ hf))
  shared := hd.flowPlaces ▸ h.shared

theorem Stocked.live_inPlace (h : Stocked g c) (hin : inPlace g n c = .ok p d) : c.net.hasPlace p := by
  obtain ⟨f, -, hf, -⟩ := inPlace_eq_ok.1 hin
  exact h.live f p hf

theorem Stocked.live_outPlace (h : Stocked g c) (hout : outPlace g n c = .ok p d) : c.net.hasPlace p := by
  obtain ⟨f, -, hf, -⟩ := outPlace_eq_ok.1 hout
  exact h.live f p hf

end Construction

end ProcessNet
