/-
The parts of a construction, stitch by stitch: which of them lead tokens along which ways, which of them
add events, and what they leave behind.
-/
import ProcessNet.Proofs.Conversion.Gate
import ProcessNet.Proofs.Conversion.Ground

namespace ProcessNet.Construction

open Identifier Net ProcessGraph

variable {g : ProcessGraph} {P : Permit} {c c' : Construction} {f k : FlowId} {p q : PlaceId}
  {t u : TransitionId} {n m : NodeId} {s : JoinedSubprocess}

/-- What a program comes to from a state that is sound. -/
def Sewn (g : ProcessGraph) (P : Permit) (c c' : Construction) : Prop := Sound g c → Stitches g P c c'

theorem Sewn.refl (c : Construction) : Sewn g P c c := fun _ => .refl

theorem Sewn.trans (c₁ c₂ c₃ : Construction) (h : Sewn g P c₁ c₂) (k : Sewn g P c₂ c₃) :
    Sewn g P c₁ c₃ :=
  fun hc => (h hc).trans (k ((h hc).sound hc))

theorem Makes.valid {α : Type} {Q : α → Prop} {m : ConstructionM α} (h : Makes unfenced Q m) {x : α}
    (hrun : m c = .ok x c') (hc : c.Valid) : c'.Valid :=
  (h.within hrun hc.unfenced).valid hc

/-- A loop whose turns keep what they rely on. -/
theorem sewn_forM_of {α : Type} {turn : α → ConstructionM PUnit} {l : List α}
    {I : Construction → Prop} (hkeeps : ∀ d d', Sound g d → Stitches g P d d' → I d → I d')
    (hturn : ∀ x ∈ l, ∀ d d', I d → turn x d = .ok () d' → Sewn g P d d')
    (h : l.forM turn c = .ok () c') (hc : I c) : Sewn g P c c' := by
  have hloop := rel_of_forM (R := fun d d' => I d → Sound g d → Stitches g P d d')
    (fun _ _ _ => .refl)
    (fun d₁ d₂ d₃ h₁ h₂ hI hs =>
      have h₁ := h₁ hI hs
      h₁.trans (h₂ (hkeeps d₁ d₂ hs h₁ hI) (h₁.sound hs)))
    (fun x hx d d' hrun hI hs => hturn x hx d d' hI hrun hs) h
  exact hloop hc

/-- A loop whose turns rely on the places of the flows. -/
theorem sewn_forM {α : Type} {turn : α → ConstructionM PUnit} {l : List α}
    (hturn : ∀ x ∈ l, ∀ d d', d.flowPlaces = c.flowPlaces → turn x d = .ok () d' → Sewn g P d d')
    (h : l.forM turn c = .ok () c') : Sewn g P c c' :=
  sewn_forM_of (I := fun d => d.flowPlaces = c.flowPlaces)
    (fun _ _ _ hst hd => (Stitches.flowPlaces hst).trans hd) hturn h rfl

/-- One turn of a loop, with what comes before and behind. -/
theorem exists_turn {α : Type} {turn : α → ConstructionM PUnit} {l : List α}
    (hturn : ∀ x ∈ l, ∀ d d', d.flowPlaces = c.flowPlaces → turn x d = .ok () d' → Sewn g P d d')
    (h : l.forM turn c = .ok () c') (hc : Sound g c) {x : α} (hx : x ∈ l) :
    ∃ d d', Stitches g P c d ∧ turn x d = .ok () d' ∧ Stitches g P d d' ∧ Stitches g P d' c' := by
  let R : Construction → Construction → Prop :=
    fun d d' => d.flowPlaces = c.flowPlaces → Sound g d → Stitches g P d d'
  have htrans : ∀ d₁ d₂ d₃, R d₁ d₂ → R d₂ d₃ → R d₁ d₃ := by
    intro d₁ d₂ d₃ h₁ h₂ hd hs
    have h₁ := h₁ hd hs
    exact h₁.trans (h₂ (h₁.flowPlaces.trans hd) (h₁.sound hs))
  obtain ⟨d, d', h₁, hrun, h₂⟩ := exists_of_mem_forM (R := R) (fun _ _ _ => .refl) htrans
    (fun y hy e e' hrun he hs => hturn y hy e e' he hrun hs) h hx
  have h₁ := h₁ rfl hc
  have hstep := hturn x hx d d' h₁.flowPlaces hrun (h₁.sound hc)
  exact ⟨d, d', h₁, hrun, hstep,
    h₂ (hstep.flowPlaces.trans h₁.flowPlaces) (hstep.sound (h₁.sound hc))⟩

/-- A loop that gathers answers, answer by answer. -/
theorem stitches_mapM {α β : Type} {turn : α → ConstructionM β} {l : List α} {ys : List β}
    (hturn : ∀ x ∈ l, ∀ d y d', d.flowPlaces = c.flowPlaces → turn x d = .ok y d' → Sewn g P d d')
    (h : l.mapM turn c = .ok ys c') (hc : Sound g c) :
    Stitches g P c c' ∧ List.Forall₂ (fun x y => ∃ d d', Stitches g P c d ∧ turn x d = .ok y d' ∧
      Stitches g P d d' ∧ Stitches g P d' c') l ys := by
  let R : Construction → Construction → Prop :=
    fun d d' => d.flowPlaces = c.flowPlaces → Sound g d → Stitches g P d d'
  have htrans : ∀ d₁ d₂ d₃, R d₁ d₂ → R d₂ d₃ → R d₁ d₃ := by
    intro d₁ d₂ d₃ h₁ h₂ hd hs
    have h₁ := h₁ hd hs
    exact h₁.trans (h₂ ((Stitches.flowPlaces h₁).trans hd) (h₁.sound hs))
  obtain ⟨hloop, hall⟩ := forall₂_of_mapM (R := R) (fun _ _ _ => .refl) htrans
    (fun x hx d y d' hrun hd hs => hturn x hx d y d' hd hrun hs) h
  refine ⟨hloop rfl hc, (List.forall₂_iff_get.2 ⟨hall.length_eq, fun i hi hi' => ?_⟩)⟩
  obtain ⟨d, d', h₁, hrun, h₂⟩ := hall.get hi hi'
  have h₁ := h₁ rfl hc
  have hd := Stitches.flowPlaces h₁
  have hstep := hturn _ (List.get_mem l ⟨i, hi⟩) d _ d' hd hrun (h₁.sound hc)
  exact ⟨d, d', h₁, hrun, hstep,
    h₂ ((Stitches.flowPlaces hstep).trans hd) (hstep.sound (h₁.sound hc))⟩

/-! ## Places -/

theorem inPlace_takes (hg : g.Linked) (h : inPlace g n c = .ok p c') :
    c' = c ∧ ∃ f, c.flowPlaces.lookup f = some p ∧ (g.flow f).target = n := by
  obtain ⟨f, hf, hp, rfl⟩ := inPlace_eq_ok.1 h
  exact ⟨rfl, f, hp, ((hg.mem_incoming n f).1 (List.mem_of_head? hf)).2⟩

theorem outPlace_gives (hg : g.Linked) (h : outPlace g n c = .ok p c') :
    c' = c ∧ ∃ f, c.flowPlaces.lookup f = some p ∧ (g.flow f).source = n := by
  obtain ⟨f, hf, hp, rfl⟩ := outPlace_eq_ok.1 h
  exact ⟨rfl, f, hp, ((hg.mem_outgoing n f).1 (List.mem_of_head? hf)).2⟩

theorem sortedPlaces_eq_ok {flows : List FlowId} {ps : List PlaceId}
    (h : sortedPlaces g flows c = .ok ps c') :
    c' = c ∧ (flows ≠ [] → ps ≠ []) ∧ ∀ p ∈ ps, ∃ f ∈ flows, c.flowPlaces.lookup f = some p := by
  obtain ⟨rfl, hall⟩ := forall₂_of_mapM (R := Eq) Eq.refl (fun _ _ _ => Eq.trans)
    (fun f _ s p s' hf => (flowPlace_eq_ok.1 hf).2.symm) h
  refine ⟨rfl, fun hne hps => hne ?_, fun p hp => ?_⟩
  · have hlen := hall.length_eq
    rw [hps, List.length_mergeSort, List.length_nil, List.length_eq_zero_iff] at hlen
    exact hlen
  · obtain ⟨f, hf, c₁, c₂, rfl, hrun, rfl⟩ := exists_of_forall₂ hall.flip hp
    exact ⟨f, List.mem_mergeSort.1 hf, (flowPlace_eq_ok.1 hrun).1⟩

/-! ## Single additions -/

/-- The step goes the way `w`. -/
structure Way.Leads (g : ProcessGraph) (c : Construction) (w : Way) (x : Transition)
    (inputs outputs : List PlaceId) : Prop where
  fits : w.Fits g
  step : w.IsStep g x
  label : w.isSilent → x.label = none
  nonempty : inputs ≠ []
  input : ∀ p ∈ inputs, ∃ f, c.flowPlaces.lookup f = some p ∧ w.Takes g f
  output : ∀ p ∈ outputs, ∃ f, c.flowPlaces.lookup f = some p ∧ w.Gives g f

theorem Way.Leads.kept {w : Way} {x : Transition} {inputs outputs : List PlaceId}
    (h : w.Leads g c x inputs outputs) (hflows : c'.flowPlaces = c.flowPlaces) :
    w.Leads g c' x inputs outputs :=
  { h with input := hflows ▸ h.input, output := hflows ▸ h.output }

theorem sewn_addStep {x : Transition} {inputs outputs : List PlaceId} (w : Way)
    (h : addStep x inputs outputs c = .ok t c') (hw : P.way w) (hl : w.Leads g c x inputs outputs) :
    Sewn g P c c' := by
  intro hs
  have hc' := Makes.valid (makes_addStep (fun _ _ => id) fun _ _ => id) h hs.valid
  obtain ⟨n, rfl, hadd⟩ := addStep_effect hs.valid.consistent h
  exact .of (.step w hw hl.fits hl.step hl.label hl.nonempty hl.input hl.output hadd) hc'

theorem sewn_addArc {a : Arc} (h : addArc a c = .ok () c') (ha : Laid g P c a) : Sewn g P c c' := by
  intro hs
  have hc' := Makes.valid (makes_addArc fun _ => id) h hs.valid
  obtain ⟨n, rfl, hadd⟩ := addArc_effect hs.valid.consistent h
  exact .of (.arc ha hadd) hc'

/-! ## Nodes -/

/-- A step through one node, from one flow to one flow. -/
theorem leads_through {x : Transition} (hfits : (Way.through n).Fits g)
    (hprocess : x.process = (g.node n).process)
    (hp : ∃ f, c.flowPlaces.lookup f = some p ∧ (g.flow f).target = n)
    (hq : ∃ f, c.flowPlaces.lookup f = some q ∧ (g.flow f).source = n) :
    (Way.through n).Leads g c x [p] [q] where
  fits := hfits
  step := ⟨trivial, hprocess⟩
  label h := by cases h
  nonempty := List.cons_ne_nil _ _
  input _ hr := List.mem_singleton.1 hr ▸ hp
  output _ hr := List.mem_singleton.1 hr ▸ hq

theorem sewn_addNodeStep (hg : g.Linked) (hP : ∀ n, P.way (.through n)) {label : Option String}
    (hfits : (Way.through n).Fits g) (h : addNodeStep g n label c = .ok () c') : Sewn g P c c' := by
  obtain ⟨p, c₁, hp, h₁⟩ := bind_eq_ok.1 h
  obtain ⟨rfl, hp⟩ := inPlace_takes hg hp
  obtain ⟨q, c₂, hq, h₂⟩ := bind_eq_ok.1 h₁
  obtain ⟨rfl, hq⟩ := outPlace_gives hg hq
  obtain ⟨t, c₃, ht, h₃⟩ := bind_eq_ok.1 h₂
  cases h₃
  exact sewn_addStep _ ht (hP n) (leads_through hfits rfl hp hq)

theorem sewn_addChoices (hP : ∀ n, P.way (.through n)) {inputs outputs : List PlaceId}
    (hfits : (Way.through n).Fits g)
    (hin : ∀ p ∈ inputs, ∃ f, c.flowPlaces.lookup f = some p ∧ (g.flow f).target = n)
    (hout : ∀ p ∈ outputs, ∃ f, c.flowPlaces.lookup f = some p ∧ (g.flow f).source = n)
    (h : addChoices (g.node n) inputs outputs c = .ok () c') : Sewn g P c c' := by
  refine sewn_forM (fun e he d d' hd hrun => ?_) h
  obtain ⟨⟨p, q⟩, i⟩ := e
  obtain ⟨hp, hq⟩ := mem_of_choice he
  obtain ⟨t, d₁, ht, hrun⟩ := bind_eq_ok.1 hrun
  cases hrun
  exact sewn_addStep _ ht (hP n) (leads_through hfits rfl (hd ▸ hin p hp) (hd ▸ hout q hq))

theorem sewn_addGateway (hg : g.Linked) (hP : ∀ n, P.way (.through n)) {kind : GatewayKind}
    {direction : GatewayDirection} (hkind : (g.node n).kind = .gateway kind direction)
    (h : addGateway g n kind direction c = .ok () c') : Sewn g P c c' := by
  have hfits : (Way.through n).Fits g := by rw [Way.Fits, hkind]; trivial
  simp only [addGateway] at h
  split at h
  · exact sewn_addNodeStep hg hP hfits h
  · split at h
    · cases h
    · rename_i hin
      split at h
      · cases h
      · obtain ⟨ps, c₁, hps, h₁⟩ := bind_eq_ok.1 h
        obtain ⟨rfl, hne, hps⟩ := sortedPlaces_eq_ok hps
        obtain ⟨qs, c₂, hqs, h₂⟩ := bind_eq_ok.1 h₁
        obtain ⟨rfl, _, hqs⟩ := sortedPlaces_eq_ok hqs
        have hps' : ∀ p ∈ ps, ∃ f, c₂.flowPlaces.lookup f = some p ∧ (g.flow f).target = n := by
          intro p hp
          obtain ⟨f, hf, hlookup⟩ := hps p hp
          exact ⟨f, hlookup, ((hg.mem_incoming n f).1 hf).2⟩
        have hqs' : ∀ q ∈ qs, ∃ f, c₂.flowPlaces.lookup f = some q ∧ (g.flow f).source = n := by
          intro q hq
          obtain ⟨f, hf, hlookup⟩ := hqs q hq
          exact ⟨f, hlookup, ((hg.mem_outgoing n f).1 hf).2⟩
        cases kind with
        | parallel =>
          obtain ⟨t, c₃, ht, h₃⟩ := bind_eq_ok.1 h₂
          cases h₃
          exact sewn_addStep _ ht (hP n) ⟨hfits, ⟨trivial, rfl⟩, (fun h => by cases h),
            hne fun he => hin (he ▸ rfl), hps', hqs'⟩
        | exclusive => exact sewn_addChoices hP hfits hps' hqs' h₂
        | inclusive => cases h₂

/-- A start of the root process marks the flow behind it. -/
theorem sewn_markStart (hp : ∃ f, c.flowPlaces.lookup f = some p ∧
      (g.node (g.flow f).source).process = g.processId)
    (h : markStart p c = .ok () c') : Sewn g P c c' := by
  intro hs
  obtain ⟨f, hf, hsource⟩ := hp
  obtain ⟨m, hadd, rfl⟩ := markStart_eq_ok.1 h
  exact .of (.mark hf hsource hadd)
    (Edit.valid (F := unfenced) (.mark id (hs.valid.flows f p hf) hadd) hs.valid)

theorem sewn_addNode (hg : g.Linked) (hP : ∀ n, P.way (.through n))
    (h : addNode g n c = .ok () c') : Sewn g P c c' := by
  have hthrough : ∀ label, (Way.through n).Fits g → addNodeStep g n label c = .ok () c' →
      Sewn g P c c' := fun _ hfits hrun => sewn_addNodeStep hg hP hfits hrun
  unfold addNode at h
  cases hkind : (g.node n).kind with
  | startEvent trigger =>
    simp only [hkind] at h
    obtain ⟨p, c₁, hp, h₁⟩ := bind_eq_ok.1 h
    obtain ⟨rfl, f, hf, hsource⟩ := outPlace_gives hg hp
    split at h₁
    · rename_i hroot
      refine sewn_markStart ⟨f, hf, ?_⟩ h₁
      rw [hsource]
      exact of_decide_eq_true hroot
    · cases h₁
      exact .refl _
  | endEvent trigger =>
    simp only [hkind] at h
    obtain ⟨p, c₁, hp, h₁⟩ := bind_eq_ok.1 h
    obtain ⟨rfl, _⟩ := inPlace_takes hg hp
    split at h₁
    · cases h₁
      intro hs
      exact .of (.finish p) (Edit.valid (F := unfenced) (.finish p) hs.valid)
    · cases h₁
      exact .refl _
  | task | catchEvent | throwEvent =>
    simp only [hkind] at h
    exact hthrough _ (by rw [Way.Fits, hkind]; trivial) h
  | gateway kind direction =>
    simp only [hkind] at h
    exact sewn_addGateway hg hP hkind h
  | subprocess | boundaryEvent =>
    simp only [hkind] at h
    cases h
    exact .refl _

theorem sewn_addNodes (hg : g.Linked) (hP : ∀ n, P.way (.through n))
    (h : addNodes g c = .ok () c') : Sewn g P c c' :=
  sewn_forM (fun _ _ _ _ _ hrun => sewn_addNode hg hP hrun) h

/-! ## Events on tasks -/

theorem sewn_addTaskBoundary (hg : g.Linked) {showEvents : Bool} {task event : NodeId}
    (hP : ∀ task event, P.way (.aside task event)) (hfits : (Way.aside task event).Fits g)
    (h : addTaskBoundary g showEvents task event c = .ok () c') : Sewn g P c c' := by
  obtain ⟨p, c₁, hp, h₁⟩ := bind_eq_ok.1 h
  obtain ⟨rfl, hp⟩ := inPlace_takes hg hp
  obtain ⟨q, c₂, hq, h₂⟩ := bind_eq_ok.1 h₁
  obtain ⟨rfl, hq⟩ := outPlace_gives hg hq
  obtain ⟨t, c₃, ht, h₃⟩ := bind_eq_ok.1 h₂
  cases h₃
  exact sewn_addStep _ ht (hP task event) ⟨hfits, ⟨trivial, rfl⟩, (fun h => by cases h),
    List.cons_ne_nil _ _, fun _ hr => List.mem_singleton.1 hr ▸ hp,
    fun _ hr => List.mem_singleton.1 hr ▸ hq⟩

theorem sewn_addTaskBoundaries (hg : g.Linked) {showEvents : Bool}
    (hP : ∀ task event, P.way (.aside task event))
    (h : addTaskBoundaries g showEvents c = .ok () c') : Sewn g P c c' := by
  refine sewn_forM (fun task htask d d' _ hrun => ?_) h
  refine sewn_forM (fun event hevent e e' _ hturn => ?_) hrun
  refine sewn_addTaskBoundary hg hP ⟨?_, (mem_boundaryEventsOf.1 hevent).2⟩ hturn
  exact of_decide_eq_true (mem_select.1 htask).2

/-! ## Subprocesses -/

/-- The subprocess `n` is joined as `s`, and tokens come to it and leave it by the flows around it. -/
structure Wired (g : ProcessGraph) (n : NodeId) (s : JoinedSubprocess) (c : Construction) : Prop where
  joined : Joined g n s c
  kind : (g.node n).kind.isSubprocess
  behind : ∃ f, c.flowPlaces.lookup f = some s.outPlace ∧ (g.flow f).source = n
  front : ∃ f p, c.flowPlaces.lookup f = some p ∧ (g.flow f).target = n ∧
    Arc.input p s.enter ∈ c.net.arcs
  exits : ∀ u ∈ s.exits, ∃ f p, c.flowPlaces.lookup f = some p ∧ (Way.outOf n).Takes g f ∧
    Arc.input p u ∈ c.net.arcs

/-- Each subprocess has its record. -/
theorem exists_record {l : List JoinedSubprocess}
    (h : List.Forall₂ (fun m r => Wired g m r c) g.subprocessesInnermostFirst l)
    (hn : (g.node n).kind.isSubprocess) : ∃ s ∈ l, Wired g n s c :=
  exists_of_forall₂ h (mem_of_isSubprocess hn)

theorem Stitches.hasTransition (h : Stitches g P c c') (ht : c.net.hasTransition t) :
    c'.net.hasTransition t := by
  obtain ⟨x, hx⟩ := hasTransition_iff.1 ht
  exact (Stitches.bears h ⟨x, hx, rfl⟩).live

theorem Joined.stitched (hj : Joined g n s c) (h : Stitches g P c c') : Joined g n s c' where
  id := hj.id
  parent := hj.parent
  behind := by rw [Stitches.flowPlaces h]; exact hj.behind
  enter := h.bears hj.enter
  exit i hi := by
    obtain ⟨u, hu, hbears⟩ := hj.exit i hi
    exact ⟨u, hu, h.bears hbears⟩
  live u hu := h.hasTransition (hj.live u hu)
  apart := hj.apart

theorem Wired.stitched (hw : Wired g n s c) (h : Stitches g P c c') : Wired g n s c' where
  joined := hw.joined.stitched h
  kind := hw.kind
  behind := by rw [Stitches.flowPlaces h]; exact hw.behind
  front := by
    obtain ⟨f, p, hf, htarget, ha⟩ := hw.front
    exact ⟨f, p, by rwa [Stitches.flowPlaces h], htarget, h.input_kept ha⟩
  exits u hu := by
    obtain ⟨f, p, hf, htakes, ha⟩ := hw.exits u hu
    exact ⟨f, p, by rwa [Stitches.flowPlaces h], htakes, h.input_kept ha⟩

theorem addStep_input {x : Transition} {inputs outputs : List PlaceId} (hc : c.Valid)
    (h : addStep x inputs outputs c = .ok t c') (hp : p ∈ inputs) : Arc.input p t ∈ c'.net.arcs := by
  obtain ⟨n, rfl, hadd⟩ := addStep_effect hc.consistent h
  exact (hadd.mem_arcs _).2 (.inl ⟨p, hp, rfl⟩)

/-- One subprocess is joined to its surroundings, by an entry that is new. -/
theorem wired_of_joinSubprocess (hg : g.Linked) (hinto : P.way (.into n)) (hout : P.way (.outOf n))
    (hkind : (g.node n).kind.isSubprocess) (hc : Sound g c) (h : joinSubprocess g n c = .ok s c') :
    Stitches g P c c' ∧ Wired g n s c' ∧ c.net.hasTransition s.enter = false := by
  have hjoined := joined_of_joinSubprocess hc.valid h
  obtain ⟨hid, hparent, before, starts, ends, c₁, hbefore, hbehind, hstarts, hends, henter, hexits⟩ :=
    joinSubprocess_eq_ok h
  obtain ⟨-, fin, hfin, htarget⟩ := inPlace_takes hg hbefore
  obtain ⟨-, fout, hfout, hsource⟩ := outPlace_gives hg hbehind
  have h₁ : Stitches g P c c₁ := by
    refine sewn_addStep _ henter hinto ⟨hkind, ⟨?_, hparent⟩, fun _ => rfl, List.cons_ne_nil _ _,
      fun p hp => ?_, fun p hp => ?_⟩ hc
    · rw [Way.Named, ← hid, ← hparent]
    · exact List.mem_singleton.1 hp ▸ ⟨fin, hfin, htarget⟩
    · obtain ⟨m, hm, hrun⟩ := exists_of_forall₂ hstarts.flip hp
      obtain ⟨-, f, hf, hsource⟩ := outPlace_gives hg hrun
      refine ⟨f, hf, ?_⟩
      obtain ⟨_, hprocess, hstart⟩ := mem_startsOf.1 hm
      rw [Way.Gives, hsource, ← hid]
      exact ⟨hprocess, hstart⟩
  have hc₁ := h₁.sound hc
  have hflows := Stitches.flowPlaces h₁
  -- every exit takes from the place of a flow into a normal end, and that place lasts while exits are added
  have hend : ∀ p ∈ ends, ∃ f, c.flowPlaces.lookup f = some p ∧ (Way.outOf n).Takes g f := by
    intro p hp
    obtain ⟨m, hm, hrun⟩ := exists_of_forall₂ hends.flip hp
    obtain ⟨-, f, hf, htarget⟩ := inPlace_takes hg hrun
    refine ⟨f, hf, ?_⟩
    obtain ⟨_, hprocess, hkind⟩ := mem_normalEndsOf.1 hm
    rw [Way.Takes, htarget, ← hid]
    exact ⟨hprocess, hkind⟩
  obtain ⟨h₂, hall⟩ := stitches_mapM (P := P) (fun e he d u d' hd hrun => by
    refine sewn_addStep (.outOf n) hrun hout ⟨hkind, ⟨trivial, hparent⟩, fun _ => rfl,
      List.cons_ne_nil _ _, fun p hp => ?_, fun p hp => ?_⟩
    · rw [List.mem_singleton.1 hp, hd, hflows]
      exact hend _ (List.fst_mem_of_mem_zipIdx he)
    · rw [List.mem_singleton.1 hp, hd, hflows]
      exact ⟨fout, hfout, hsource⟩) hexits hc₁
  have hlookup : ∀ {f p}, c.flowPlaces.lookup f = some p → c'.flowPlaces.lookup f = some p := by
    intro f p hf
    rw [Stitches.flowPlaces h₂, hflows, hf]
  refine ⟨h₁.trans h₂, ⟨hjoined, hkind, ⟨fout, hlookup hfout, hsource⟩,
    ⟨fin, before, hlookup hfin, htarget, ?_⟩, fun u hu => ?_⟩, (addStep_bears hc.valid henter).1⟩
  · exact h₂.input_kept (addStep_input hc.valid henter List.mem_cons_self)
  · obtain ⟨e, he, d, d', hd, hrun, _, hd'⟩ := exists_of_forall₂ hall.flip hu
    obtain ⟨f, hf, htakes⟩ := hend _ (List.fst_mem_of_mem_zipIdx he)
    have hvalid := (hd.sound hc₁).valid
    exact ⟨f, _, hlookup hf, htakes,
      hd'.input_kept (addStep_input hvalid hrun List.mem_cons_self)⟩

/-- All subprocesses are joined, by different entries. -/
theorem wired_of_mapM (hg : g.Linked) (hinto : ∀ n, P.way (.into n)) (hout : ∀ n, P.way (.outOf n))
    {nodes : List NodeId} {l : List JoinedSubprocess}
    (hnodes : ∀ n ∈ nodes, (g.node n).kind.isSubprocess) (hc : Sound g c)
    (h : nodes.mapM (joinSubprocess g) c = .ok l c') :
    Stitches g P c c' ∧ List.Forall₂ (fun n s => Wired g n s c') nodes l ∧
      (∀ s ∈ l, c.net.hasTransition s.enter = false) ∧ l.Pairwise fun s r => s.enter ≠ r.enter := by
  induction nodes generalizing c l with
  | nil =>
    rw [List.mapM_nil] at h
    cases h
    exact ⟨.refl, .nil, fun _ hs => absurd hs List.not_mem_nil, .nil⟩
  | cons n nodes ih =>
    rw [List.mapM_cons] at h
    obtain ⟨s, c₁, hs, h₁⟩ := bind_eq_ok.1 h
    obtain ⟨l₁, c₂, hl, h₂⟩ := bind_eq_ok.1 h₁
    cases h₂
    obtain ⟨hst, hwired, hfresh⟩ := wired_of_joinSubprocess hg (hinto n) (hout n)
      (hnodes n List.mem_cons_self) hc hs
    obtain ⟨hst', hall, hnew, hpairwise⟩ := ih
      (fun m hm => hnodes m (List.mem_cons_of_mem _ hm)) (hst.sound hc) hl
    refine ⟨hst.trans hst', .cons (hwired.stitched hst') hall, fun r hr => ?_,
      .cons (fun r hr he => ?_) hpairwise⟩
    · rcases List.mem_cons.1 hr with rfl | hr
      · exact hfresh
      · refine Bool.eq_false_iff.2 fun hlive => ?_
        have hlive' := hst.hasTransition hlive
        rw [hnew r hr] at hlive'
        cases hlive'
    · -- This entry is there before the others are made, and each of them is new then.
      have hlive := hwired.joined.enter.live
      rw [he, hnew r hr] at hlive
      cases hlive

theorem wired_of_joinSubprocesses (hg : g.Linked) (hinto : ∀ n, P.way (.into n))
    (hout : ∀ n, P.way (.outOf n)) {l : List JoinedSubprocess} (hc : Sound g c)
    (h : joinSubprocesses g c = .ok l c') :
    Stitches g P c c' ∧ List.Forall₂ (fun n s => Wired g n s c') g.subprocessesInnermostFirst l ∧
      l.Pairwise fun s r => s.enter ≠ r.enter := by
  obtain ⟨hst, hall, _, hpairwise⟩ := wired_of_mapM hg hinto hout
    (fun n hn => (mem_subprocessesInnermostFirst.1 hn).2) hc h
  exact ⟨hst, hall, hpairwise⟩

end ProcessNet.Construction
