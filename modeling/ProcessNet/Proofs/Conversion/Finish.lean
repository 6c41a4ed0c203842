/-
Subprocesses one after the other, the innermost first. When the turn of a subprocess comes, all that lies
inside it has been handed over to it, so its ends clear its whole scope; nothing that is done later leads
to these ends or into this scope.
-/
import ProcessNet.Proofs.Conversion.Scope

namespace ProcessNet.Construction

open Identifier Net ProcessGraph

variable {g : ProcessGraph} {P : Permit} {showEvents : Bool} {c c' : Construction} {f k : FlowId}
  {p q : PlaceId} {t u : TransitionId} {n m : NodeId} {s r : JoinedSubprocess}
  {all l : List JoinedSubprocess} {nodes : List NodeId} {inside : String → Prop}

/-! ## The process of a place -/

/-- Live places that were made inside lie inside, and what lies inside belongs to a subprocess that is
left. -/
structure Tracked (g : ProcessGraph) (inside : String → Prop) (all l : List JoinedSubprocess)
    (c : Construction) : Prop where
  here : ∀ q x, c.net.place? q = some x → Owned g inside all c q → inside x.process
  left : ∀ q x, c.net.place? q = some x → inside x.process → ∃ r ∈ l, r.id = x.process

theorem Stitch.tracked (h : Stitch g P c c') (hs : Sound g c) (hk : Known g P all c)
    (habsorbs : ¬ P.absorbs) (hl : ∀ r, P.sub r → r ∈ l) (ht : Tracked g inside all l c) :
    Tracked g inside all l c' := by
  refine ⟨fun q x' hx' hq => ?_, fun q x' hx' hin => ?_⟩
  · rcases h.place_back hx' with ⟨x, hx, _, he⟩ | ⟨hnext, hfresh, _⟩
    · rw [he habsorbs]
      rcases h.owned_back hs hk hq with hold | ⟨s, y, _, hin, hy, hprocess⟩
      · exact ht.here q x hx hold
      · rw [hx] at hy
        cases hy
        exact hprocess ▸ hin
    · have hdead : ∀ y, c.net.place? q ≠ some y := fun y hy =>
        ne_of_hasPlace (hasPlace_iff.2 ⟨y, hy⟩) hfresh rfl
      rcases h.owned_back hs hk hq with (⟨f, hf, _⟩ | ⟨⟨y, hy, _⟩, _⟩) | ⟨_, y, _, _, hy, _⟩
      · exact absurd hnext (Arena.ne_next_of_lt (hs.valid.flows f q hf.1))
      · exact absurd hy (hdead y)
      · exact absurd hy (hdead y)
  · rcases h.place_back hx' with ⟨x, hx, _, he⟩ | ⟨_, _, _, _, s, hsub, hprocess⟩
    · rw [he habsorbs] at hin ⊢
      exact ht.left q x hx hin
    · exact ⟨s, hl s hsub, hprocess.symm⟩

theorem Stitches.tracked (h : Stitches g P c c') (hs : Sound g c) (hk : Known g P all c)
    (habsorbs : ¬ P.absorbs) (hl : ∀ r, P.sub r → r ∈ l) (ht : Tracked g inside all l c) :
    Tracked g inside all l c' := by
  induction h with
  | refl => exact ht
  | tail h₁ hstep ih =>
    exact hstep.1.tracked (Stitches.sound h₁ hs) (hk.stitched h₁) habsorbs hl ih

/-- By `absorb` a subprocess inside hands its places over to one that is left. -/
theorem Tracked.absorbed (hs : Sound g c) (hk : Known g { absorbs := True } all c)
    (hup : inside r.id → inside r.parent) (hheld : inside r.parent → ∃ s ∈ l, s.id = r.parent)
    (ht : Tracked g inside all (r :: l) c) : Tracked g inside all l (absorbed r c) := by
  have hst : Stitch g { absorbs := True } c (Construction.absorbed r c) := .absorb r trivial
  have hplace : ∀ q x', (Construction.absorbed r c).net.place? q = some x' →
      ∃ x, c.net.place? q = some x ∧ x'.process = if x.process = r.id then r.parent else x.process := by
    intro q x' hx'
    obtain ⟨x, hx, rfl⟩ := Option.map_eq_some_iff.1 ((place?_mapNodes q).symm.trans hx')
    refine ⟨x, hx, ?_⟩
    split <;> rfl
  refine ⟨fun q x' hx' hq => ?_, fun q x' hx' hin => ?_⟩
  · obtain ⟨x, hx, hprocess⟩ := hplace q x' hx'
    rcases hst.owned_back hs hk hq with hold | ⟨_, _, hsub, _⟩
    · have hin := ht.here q x hx hold
      rw [hprocess]
      split
      · rename_i he
        exact hup (he ▸ hin)
      · exact hin
    · exact hsub.elim
  · obtain ⟨x, hx, hprocess⟩ := hplace q x' hx'
    rw [hprocess] at hin ⊢
    split at hin
    · rename_i he
      rw [if_pos he]
      exact hheld hin
    · rename_i he
      rw [if_neg he]
      obtain ⟨s, hs', hid⟩ := ht.left q x hx hin
      rcases List.mem_cons.1 hs' with rfl | hs'
      · exact absurd hid.symm he
      · exact ⟨s, hs', hid⟩

/-! ## What later parts spare -/

/-- Nothing that is permitted leads into the region, and no subprocess inside it is worked on. -/
structure Outside (g : ProcessGraph) (inside : String → Prop) (P : Permit) : Prop where
  way : ∀ w, P.way w → w = .stop ∨ ∃ m, w = .skip m ∧ ¬ inside (g.node m).process
  sub : ∀ s, P.sub s → ¬ inside s.id

theorem spares_of_inside (hr : g.Region n inside) (hP : Outside g inside P) (hk : Known g P all c)
    (hf : index f < g.flows.size) (hin : inside (g.flow f).process) : Spares g P f := by
  have hsource := (hr.confined.source f hf).1 hin
  have htarget := (hr.confined.target f hf).1 hin
  refine ⟨fun w hw _ hgives => ?_, fun s hs hm => ?_, fun s hs hraising => ?_⟩
  · rcases hP.way w hw with rfl | ⟨m, rfl, hout⟩
    · exact hr.root ((kind_of_entersRootEnd hgives).2 ▸ htarget)
    · exact hout (hgives ▸ hsource)
  · obtain ⟨j, hw⟩ := hk.wired s hs
    obtain ⟨_, trigger, hkind⟩ := mem_boundaryEventsOf.1 hm
    refine hP.sub s hs ?_
    rw [hw.joined.id] at hkind ⊢
    exact hr.down j hw.kind ((hr.confined.event _ j trigger hkind
      (isActivity_of_isSubprocess hw.kind)).1 hsource)
  · exact hP.sub s hs (hraising.1 ▸ htarget)

/-- The place is live and in the scope. -/
def Scoped (g : ProcessGraph) (inside : String → Prop) (all : List JoinedSubprocess)
    (c : Construction) (q : PlaceId) : Prop :=
  c.net.hasPlace q ∧ InScope g inside all c q

theorem Stitches.scoped_back (h : Stitches g P c c') (hs : Sound g c) (hk : Known g P all c)
    (hP : Outside g inside P) (hq : Scoped g inside all c' q) : Scoped g inside all c q := by
  induction h with
  | refl => exact hq
  | tail h₁ hstep ih =>
    have hs₁ := Stitches.sound h₁ hs
    refine ih ?_
    rcases hstep.1.inScope_back hs₁ (hk.stitched h₁) hq.2 with hold | ⟨s, _, hsub, hin, _⟩
    · refine ⟨?_, hold⟩
      rcases hold with ⟨f, hf, _⟩ | ⟨hgate, _⟩
      · exact hstep.1.live_back hs₁.valid hf hq.1
      · exact hgate.live
    · exact absurd hin (hP.sub s hsub)

theorem Stitches.owned_back (h : Stitches g P c c') (hs : Sound g c) (hk : Known g P all c)
    (hsub : ∀ s, P.sub s → ¬ inside s.id) (hlive : c'.net.hasPlace q)
    (hq : Owned g inside all c' q) : c.net.hasPlace q ∧ Owned g inside all c q := by
  induction h with
  | refl => exact ⟨hlive, hq⟩
  | tail h₁ hstep ih =>
    have hs₁ := Stitches.sound h₁ hs
    rcases hstep.1.owned_back hs₁ (hk.stitched h₁) hq with hold | ⟨s, _, hs', hin, _⟩
    · refine ih ?_ hold
      rcases hold with ⟨f, hf, _⟩ | ⟨hgate, _⟩
      · exact hstep.1.live_back hs₁.valid hf.1 hlive
      · exact hgate.live
    · exact absurd hin (hsub s hs')

/-- What puts a token on an own place clears the scope; own places are those of flows inside. -/
structure Cleared (g : ProcessGraph) (inside : String → Prop) (all : List JoinedSubprocess)
    (own : PlaceId → Prop) (c : Construction) : Prop where
  flow : ∀ p, own p → ∃ f, c.flowPlaces.lookup f = some p ∧ inside (g.flow f).process
  clears : c.net.Clears (Scoped g inside all c) own

theorem Stitches.cleared {own : PlaceId → Prop} (h : Stitches g P c c') (hr : g.Region n inside)
    (hs : Sound g c) (hk : Known g P all c) (hP : Outside g inside P)
    (hc : Cleared g inside all own c) : Cleared g inside all own c' := by
  refine ⟨fun p hp => h.flowPlaces ▸ hc.flow p hp, ?_⟩
  refine h.clears hs (fun p hp => ?_) (fun q hq => ⟨hq.1, h.scoped_back hs hk hP hq⟩) hc.clears
  obtain ⟨f, hf, hin⟩ := hc.flow p hp
  exact ⟨f, hf, fun k hk => eq_of_inside hr hs hf hin hk,
    spares_of_inside hr hP hk (hs.bound f p hf) hin⟩

/-! ## One turn -/

/-- The parts of `finish`. -/
theorem stitches_finish (hg : g.Normal) (hs : Sound g c) (hw : Wired g m s c) (hs' : s ∈ all)
    (hlive : ∀ r ∈ all, ∀ u ∈ r.enter :: r.exits, c.net.hasTransition u)
    (h : finish g showEvents s c = .ok () c') :
    ∃ c₁ c₂ raised, Stitches g { sub := (· = s) } c c₁ ∧
      Stitches g { way := (· = .skip m) } c₁ c₂ ∧ c' = absorbed s c₂ ∧
      Interrupts g s (fun q => c₁.LiesIn q s.id) c₁ ∧
      Handled g all s (· ∈ g.boundaryEventsOf s.id) raised c₁ ∧
      c₁.net.Clears (fun q => c₁.LiesIn q s.id) (· ∈ raised) ∧
      ((∀ f p, c.flowPlaces.lookup f = some p → Terminating g f s.id → (g.flow f).source ≠ m) →
        c₂.net.Clears (fun q => c₁.LiesIn q s.id)
          fun p => ∃ f, c.flowPlaces.lookup f = some p ∧ Terminating g f s.id) := by
  obtain ⟨_, c₁, hboundaries, hrest⟩ := bind_eq_ok.1 h
  obtain ⟨_, c₂, hterminate, habsorb⟩ := bind_eq_ok.1 hrest
  cases habsorb
  obtain ⟨st₁, hinterrupts, raised, hh, hclears⟩ := stitches_addSubprocessBoundaries hg hs
    (P := { sub := (· = s) }) rfl (fun _ hr => hr ▸ hs') hlive hboundaries
  obtain ⟨st₂, hterms⟩ :=
    stitches_terminateSubprocess hg (st₁.sound hs) (hw.stitched st₁) hterminate
  rw [st₁.flowPlaces] at hterms
  exact ⟨c₁, c₂, raised, st₁, st₂, rfl, hinterrupts, hh, hclears, hterms⟩

theorem stitches_absorbed (hP : P.absorbs) (hc : c.Valid) : Stitches g P c (absorbed s c) :=
  .of (.absorb s hP) (Edit.valid (F := unfenced) (.absorb s trivial) hc)

/-! ## All turns -/

/-- The subprocesses that are left, the innermost first, with their records. -/
structure Queue (g : ProcessGraph) (all : List JoinedSubprocess) (nodes : List NodeId)
    (l : List JoinedSubprocess) (c : Construction) : Prop where
  wired : List.Forall₂ (fun m r => Wired g m r c) nodes l
  sorted : nodes.Pairwise fun m k => g.depth k ≤ g.depth m
  nodup : nodes.Nodup
  rest : ∀ k, (g.node k).kind.isSubprocess → k ∈ nodes ∨ ∀ m ∈ nodes, g.depth m ≤ g.depth k
  mem : ∀ r ∈ l, r ∈ all
  enter : ∀ s ∈ all, ∀ r ∈ all, s.enter = r.enter → s = r
  live : ∀ r ∈ all, ∀ u ∈ r.enter :: r.exits, c.net.hasTransition u

theorem Queue.stitched (hq : Queue g all nodes l c) (h : Stitches g P c c') : Queue g all nodes l c' :=
  { hq with
    wired := hq.wired.imp fun _ _ hw => hw.stitched h
    live := fun r hr u hu => h.hasTransition (hq.live r hr u hu) }

theorem Queue.tail (hq : Queue g all (m :: nodes) (s :: l) c) : Queue g all nodes l c where
  wired := (List.forall₂_cons.1 hq.wired).2
  sorted := (List.pairwise_cons.1 hq.sorted).2
  nodup := (List.nodup_cons.1 hq.nodup).2
  rest k hk := by
    rcases hq.rest k hk with hk' | hdeep
    · rcases List.mem_cons.1 hk' with rfl | hk'
      · exact .inr (List.pairwise_cons.1 hq.sorted).1
      · exact .inl hk'
    · exact .inr fun j hj => hdeep j (List.mem_cons_of_mem _ hj)
  mem r hr := hq.mem r (List.mem_cons_of_mem _ hr)
  enter := hq.enter
  live := hq.live

/-- What may be done for the subprocesses that are left. -/
def later (nodes : List NodeId) (l : List JoinedSubprocess) : Permit where
  way w := ∃ m ∈ nodes, w = .skip m
  sub := (· ∈ l)
  absorbs := True

theorem Queue.known (hq : Queue g all nodes l c) : Known g (later nodes l) all c where
  mem := hq.mem
  wired r hr := by
    obtain ⟨m, _, hw⟩ := exists_of_forall₂ hq.wired.flip hr
    exact ⟨m, hw⟩
  enter := hq.enter

/-- Where no subprocess is worked on, it is enough that they are told by their entries. -/
theorem known_of_none (hq : Queue g all nodes l c) (hP : ∀ s, ¬ P.sub s) : Known g P all c :=
  ⟨fun s hs => absurd hs (hP s), fun s hs => absurd hs (hP s), hq.enter⟩

theorem Stitches.earlier (h : Stitches g (later nodes l) c c') :
    Stitches g (later (m :: nodes) (s :: l)) c c' :=
  h.mono (fun _ hw => hw.imp fun _ hk => ⟨List.mem_cons_of_mem _ hk.1, hk.2⟩)
    (fun _ hr => List.mem_cons_of_mem _ hr) id

/-- A turn of `finish` ends with the ways from the terminate ends, and then with `absorb`. -/
theorem Stitches.handedOver (h : Stitches g { way := (· = .skip m) } c c') (hc' : c'.Valid) :
    Stitches g (later (m :: nodes) l) c (absorbed s c') :=
  Stitches.trans (h.mono (fun _ hw => ⟨m, List.mem_cons_self, hw⟩) (fun _ => False.elim) False.elim)
    (stitches_absorbed trivial hc')

theorem Queue.known_first (hq : Queue g all (m :: nodes) (s :: l) c) :
    Known g { sub := (· = s) } all c := by
  obtain ⟨hw, _⟩ := List.forall₂_cons.1 hq.wired
  exact ⟨fun r hr => hr ▸ hq.mem s List.mem_cons_self, fun r hr => ⟨m, hr ▸ hw⟩, hq.enter⟩

/-- One turn of `finish`: each event of the subprocess is dealt with. -/
theorem stitches_of_turn (hg : g.Normal) (hs : Sound g c) (hq : Queue g all (m :: nodes) (s :: l) c)
    (h : finish g showEvents s c = .ok () c') :
    Stitches g (later (m :: nodes) (s :: l)) c c' ∧
      ∃ raised, Handled g all s (· ∈ g.boundaryEventsOf s.id) raised c' := by
  obtain ⟨hw, _⟩ := List.forall₂_cons.1 hq.wired
  obtain ⟨c₁, c₂, raised, st₁, st₂, rfl, _, hh, _, _⟩ :=
    stitches_finish hg hs hw (hq.mem s List.mem_cons_self) hq.live h
  have hs₁ := st₁.sound hs
  have st₁' : Stitches g (later (m :: nodes) (s :: l)) c c₁ :=
    st₁.mono (fun _ => False.elim) (fun r hr => hr ▸ List.mem_cons_self) False.elim
  have st₃ : Stitches g (later (m :: nodes) (s :: l)) c₁ (absorbed s c₂) :=
    st₂.handedOver (st₂.valid hs₁.valid)
  exact ⟨st₁'.trans st₃, raised, st₃.handled hq.mem hs₁ hh⟩

/-- All turns of `finish`: each event of each subprocess is dealt with. -/
theorem stitches_finishes (hg : g.Normal) (hs : Sound g c) (hq : Queue g all nodes l c)
    (h : l.forM (finish g showEvents) c = .ok () c') :
    Stitches g (later nodes l) c c' ∧
      ∀ r ∈ l, ∃ raised, Handled g all r (· ∈ g.boundaryEventsOf r.id) raised c' := by
  induction nodes generalizing l c with
  | nil =>
    cases hq.wired
    cases h
    exact ⟨.refl, fun _ hr => absurd hr List.not_mem_nil⟩
  | cons m nodes ih =>
    obtain ⟨s, l, _, _, rfl⟩ := List.forall₂_cons_left_iff.1 hq.wired
    rw [List.forM] at h
    obtain ⟨_, c₁, hturn, hrest⟩ := bind_eq_ok.1 h
    obtain ⟨st, raised, hh⟩ := stitches_of_turn hg hs hq hturn
    have hs₁ := st.sound hs
    obtain ⟨strest, hall⟩ := ih hs₁ (hq.stitched st).tail hrest
    refine ⟨st.trans strest.earlier, fun r hr => ?_⟩
    rcases List.mem_cons.1 hr with rfl | hr
    · exact ⟨raised, strest.handled hq.tail.mem hs₁ hh⟩
    · exact hall r hr

/-- A subprocess that is less deep than the first one is still left after its turn. -/
theorem Queue.exists_left (hq : Queue g all (m :: nodes) (s :: l) c)
    (hk : (g.node n).kind.isSubprocess) (hlt : g.depth n < g.depth m) :
    ∃ r ∈ l, r.id = (g.node n).id := by
  rcases hq.rest n hk with hmem | hdeep
  · rcases List.mem_cons.1 hmem with rfl | hmem
    · exact absurd hlt (Nat.lt_irrefl _)
    · obtain ⟨r, hr, hw⟩ := exists_of_forall₂ hq.tail.wired hmem
      exact ⟨r, hr, hw.joined.id⟩
  · exact absurd hlt (Nat.not_lt.2 (hdeep m List.mem_cons_self))

/-- Of the subprocesses that are left only the first one lies inside its own region. -/
theorem Queue.not_inside (hq : Queue g all (n :: nodes) (s :: l) c) (hr : g.Enclosure n inside)
    (hm : m ∈ nodes) (hkind : (g.node m).kind.isSubprocess) : ¬ inside (g.node m).id := by
  intro hin
  rcases hr.deeper m hkind hin with rfl | hlt
  · exact (List.nodup_cons.1 hq.nodup).1 hm
  · exact Nat.not_lt.2 ((List.pairwise_cons.1 hq.sorted).1 m hm) hlt

theorem Queue.outside (hq : Queue g all (n :: nodes) (s :: l) c) (hr : g.Enclosure n inside) :
    Outside g inside (later nodes l) where
  way w := by
    rintro ⟨m, hm, rfl⟩
    obtain ⟨_, _, hw⟩ := exists_of_forall₂ hq.tail.wired hm
    exact .inr ⟨m, rfl, fun hin => hq.not_inside hr hm hw.kind (hr.down m hw.kind hin)⟩
  sub r hr' := by
    obtain ⟨m, hm, hw⟩ := exists_of_forall₂ hq.tail.wired.flip hr'
    rw [hw.joined.id]
    exact hq.not_inside hr hm hw.kind

/-- When its turn comes, all that was made inside a subprocess belongs to it. -/
theorem Queue.liesIn (hq : Queue g all (n :: nodes) (s :: l) c) (hr : g.Enclosure n inside)
    (ht : Tracked g inside all (s :: l) c) (hlive : c.net.hasPlace q)
    (howned : Owned g inside all c q) : c.LiesIn q s.id := by
  obtain ⟨x, hx⟩ := hasPlace_iff.1 hlive
  have hin := ht.here q x hx howned
  obtain ⟨r, hr', hid⟩ := ht.left q x hx hin
  rcases List.mem_cons.1 hr' with rfl | hr'
  · exact ⟨x, hx, hid.symm⟩
  · obtain ⟨m, hm, hw⟩ := exists_of_forall₂ hq.tail.wired.flip hr'
    exact absurd (hw.joined.id ▸ hid ▸ hin) (hq.not_inside hr hm hw.kind)

/-- What is known of a subprocess that has had its turn: its ends clear its scope. -/
structure Settled (g : ProcessGraph) (inside : String → Prop) (all : List JoinedSubprocess)
    (s : JoinedSubprocess) (raised : List PlaceId) (c : Construction) : Prop where
  handled : Handled g all s (· ∈ g.boundaryEventsOf s.id) raised c
  raised : Cleared g inside all (· ∈ raised) c
  terminated : Cleared g inside all
    (fun p => ∃ f, c.flowPlaces.lookup f = some p ∧ Terminating g f s.id) c

theorem Stitches.settled {raised : List PlaceId} (h : Stitches g P c c') (hr : g.Region n inside)
    (hs : Sound g c) (hk : Known g P all c) (hP : Outside g inside P)
    (hc : Settled g inside all s raised c) : Settled g inside all s raised c' where
  handled := h.handled hk.mem hs hc.handled
  raised := h.cleared hr hs hk hP hc.raised
  terminated := by
    rw [h.flowPlaces]
    exact h.cleared hr hs hk hP hc.terminated

/-- The turn of `finish` with the subprocess that the region belongs to. -/
theorem settled_of_turn (hg : g.Normal) (hr : g.Region n inside) (hs : Sound g c)
    (hq : Queue g all (n :: nodes) (s :: l) c) (ht : Tracked g inside all (s :: l) c)
    (h : finish g showEvents s c = .ok () c') : ∃ raised, Settled g inside all s raised c' := by
  obtain ⟨hw, _⟩ := List.forall₂_cons.1 hq.wired
  obtain ⟨c₁, c₂, raised, st₁, st₂, rfl, _, hh, hraised, hterms⟩ :=
    stitches_finish hg hs hw (hq.mem s List.mem_cons_self) hq.live h
  have hs₁ := st₁.sound hs
  have hs₂ := st₂.sound hs₁
  have hq₁ := hq.stitched st₁
  have ht₁ := st₁.tracked hs hq.known_first id (fun r hr => hr ▸ List.mem_cons_self) ht
  have hliesIn : ∀ q, Scoped g inside all c₁ q → c₁.LiesIn q s.id := fun q hscope =>
    hq₁.liesIn hr.toEnclosure ht₁ hscope.1 (hscope.2.owned hr hs₁)
  have hout : Outside g inside { way := (· = .skip n) } :=
    ⟨fun w hw => .inr ⟨n, hw, hr.outer⟩, fun _ => False.elim⟩
  have hk₁ : Known g { way := (· = .skip n) } all c₁ := known_of_none hq₁ fun _ => id
  -- An end of the subprocess lies inside, and what leads to it does so too.
  have hinside : ∀ f p, c.flowPlaces.lookup f = some p →
      (g.node (g.flow f).target).process = s.id → inside (g.flow f).process := by
    intro f p hf hprocess
    refine (hr.confined.target f (hs.bound f p hf)).2 ?_
    rw [hprocess, hw.joined.id]
    exact hr.self
  have hcleared₁ : Cleared g inside all (· ∈ raised) c₁ := by
    refine ⟨fun p hp => ?_, fun p t hp hout q hscope =>
      hraised p t hp hout q (hliesIn q hscope)⟩
    obtain ⟨_, _, _, _, hcaught⟩ := hh.raised p hp
    obtain ⟨f, hf, hraising⟩ := hcaught.raising
    exact ⟨f, hf, hinside f p (st₁.flowPlaces ▸ hf) hraising.1⟩
  have hborder : ∀ f p, c.flowPlaces.lookup f = some p → Terminating g f s.id →
      (g.flow f).source ≠ n := by
    intro f p hf hterm he
    refine hr.outer (he ▸ (hr.confined.source f (hs.bound f p hf)).1 (hinside f p hf hterm.1))
  have hflows : c₂.flowPlaces = c.flowPlaces := st₂.flowPlaces.trans st₁.flowPlaces
  have hterms₂ : Cleared g inside all
      (fun p => ∃ f, c.flowPlaces.lookup f = some p ∧ Terminating g f s.id) c₂ := by
    refine ⟨fun p hp => ?_, fun p t hp hout' q hscope => hterms hborder p t hp hout' q ?_⟩
    · obtain ⟨f, hf, hterm⟩ := hp
      exact ⟨f, by rw [hflows, hf], hinside f p hf hterm.1⟩
    exact hliesIn q (st₂.scoped_back hs₁ hk₁ hout hscope)
  have hsettled : Settled g inside all s raised c₂ :=
    ⟨st₂.handled (fun _ => False.elim) hs₁ hh, st₂.cleared hr hs₁ hk₁ hout hcleared₁,
      hflows ▸ hterms₂⟩
  have st₃ : Stitches g { absorbs := True } c₂ (absorbed s c₂) := stitches_absorbed trivial hs₂.valid
  exact ⟨raised, st₃.settled hr hs₂ (known_of_none (hq₁.stitched st₂) fun _ => id)
    ⟨fun _ => False.elim, fun _ => False.elim⟩ hsettled⟩

/-- The turn of `finish` with any other subprocess leaves the places tracked. -/
theorem tracked_of_turn (hg : g.Normal) (hr : g.Enclosure n inside) (hs : Sound g c)
    (hq : Queue g all (m :: nodes) (s :: l) c) (hne : m ≠ n) (ht : Tracked g inside all (s :: l) c)
    (h : finish g showEvents s c = .ok () c') : Tracked g inside all l c' := by
  obtain ⟨hw, _⟩ := List.forall₂_cons.1 hq.wired
  obtain ⟨c₁, c₂, _, st₁, st₂, rfl, _⟩ :=
    stitches_finish hg hs hw (hq.mem s List.mem_cons_self) hq.live h
  have hs₁ := st₁.sound hs
  have hq₁ := hq.stitched st₁
  have ht₁ := st₁.tracked hs hq.known_first id (fun r hr => hr ▸ List.mem_cons_self) ht
  have ht₂ := st₂.tracked hs₁ (known_of_none hq₁ fun _ => id) id (fun _ => False.elim) ht₁
  refine ht₂.absorbed (st₂.sound hs₁) (known_of_none (hq₁.stitched st₂) fun _ => id)
    (fun hin => ?_) fun hin => ?_
  · rw [hw.joined.id] at hin
    rw [hw.joined.parent]
    exact (hr.up m hw.kind hin).resolve_left hne
  · rw [hw.joined.parent] at hin ⊢
    obtain ⟨k, hk, hid⟩ := hr.held _ hin
    obtain ⟨r, hr', hid'⟩ := hq.exists_left hk (hr.layered m k hw.kind hk hid.symm)
    exact ⟨r, hr', hid'.trans hid⟩

/-- Among all turns is that of the subprocess `n`, with all that was made inside it handed over to it. -/
theorem exists_turn_of_finishes (hg : g.Normal) (hr : g.Enclosure n inside) (hn : n ∈ nodes)
    (hs : Sound g c) (hq : Queue g all nodes l c) (ht : Tracked g inside all l c)
    (h : l.forM (finish g showEvents) c = .ok () c') :
    ∃ s ∈ l, ∃ rest l' c₁ c₂, Sound g c₁ ∧ Queue g all (n :: rest) (s :: l') c₁ ∧
      Tracked g inside all (s :: l') c₁ ∧ finish g showEvents s c₁ = .ok () c₂ ∧
      Queue g all rest l' c₂ ∧ Stitches g (later rest l') c₂ c' := by
  induction nodes generalizing l c with
  | nil => cases hn
  | cons m nodes ih =>
    obtain ⟨s, l, _, _, rfl⟩ := List.forall₂_cons_left_iff.1 hq.wired
    rw [List.forM] at h
    obtain ⟨_, c₁, hturn, hrest⟩ := bind_eq_ok.1 h
    have st := (stitches_of_turn hg hs hq hturn).1
    have hs₁ := st.sound hs
    have hq₁ := (hq.stitched st).tail
    by_cases hm : m = n
    · subst hm
      exact ⟨s, List.mem_cons_self, nodes, l, c, c₁, hs, hq, ht, hturn, hq₁,
        (stitches_finishes hg hs₁ hq₁ hrest).1⟩
    · -- Until its turn comes, the others hand what was made inside it over to it.
      have hn : n ∈ nodes := (List.mem_cons.1 hn).resolve_left (Ne.symm hm)
      obtain ⟨r, hr', hturn'⟩ := ih hn hs₁ hq₁ (tracked_of_turn hg hr hs hq hm ht hturn) hrest
      exact ⟨r, List.mem_cons_of_mem _ hr', hturn'⟩

/-- After all turns of `finish` the ends of the subprocess that the region belongs to clear its scope. -/
theorem settled_of_finishes (hg : g.Normal) (hr : g.Region n inside) (hn : n ∈ nodes)
    (hs : Sound g c) (hq : Queue g all nodes l c) (ht : Tracked g inside all l c)
    (h : l.forM (finish g showEvents) c = .ok () c') :
    ∃ s ∈ l, Wired g n s c' ∧ ∃ raised, Settled g inside all s raised c' := by
  obtain ⟨s, hsl, rest, l', c₁, c₂, hs₁, hq₁, ht₁, hturn, hq₂, st₂⟩ :=
    exists_turn_of_finishes hg hr.toEnclosure hn hs hq ht h
  obtain ⟨raised, hsettled⟩ := settled_of_turn hg hr hs₁ hq₁ ht₁ hturn
  have st₁ := (stitches_of_turn hg hs₁ hq₁ hturn).1
  obtain ⟨hw, _⟩ := List.forall₂_cons.1 hq₁.wired
  exact ⟨s, hsl, hw.stitched (st₁.trans st₂.earlier), raised,
    st₂.settled hr (st₁.sound hs₁) hq₂.known (hq₁.outside hr.toEnclosure) hsettled⟩

/-- After all turns of `finish` each message on a subprocess takes from or resets all that was made
inside it. -/
theorem interrupts_of_finishes (hg : g.Normal) (hr : g.Enclosure n inside) (hn : n ∈ nodes)
    (hs : Sound g c) (hq : Queue g all nodes l c) (ht : Tracked g inside all l c)
    (h : l.forM (finish g showEvents) c = .ok () c') :
    ∃ s ∈ l, Wired g n s c' ∧
      Interrupts g s (fun q => c'.net.hasPlace q ∧ Owned g inside all c' q) c' := by
  obtain ⟨s, hsl, rest, l', c₀, c₁, hs₀, hq₀, ht₀, hturn, _, strest⟩ :=
    exists_turn_of_finishes hg hr hn hs hq ht h
  obtain ⟨hw, _⟩ := List.forall₂_cons.1 hq₀.wired
  obtain ⟨d₁, d₂, _, st₁, st₂, rfl, hinterrupts, hh, _⟩ :=
    stitches_finish hg hs₀ hw (hq₀.mem s List.mem_cons_self) hq₀.live hturn
  have hd₁ := st₁.sound hs₀
  have hq₁ := hq₀.stitched st₁
  have ht₁ := st₁.tracked hs₀ hq₀.known_first id (fun r hr => hr ▸ List.mem_cons_self) ht₀
  -- What is done from then on is done for subprocesses outside, so what was made inside stays.
  have st₂' : Stitches g (later (n :: rest) l') d₁ (absorbed s d₂) :=
    st₂.handedOver (st₂.valid hd₁.valid)
  have st : Stitches g (later (n :: rest) l') d₁ c' := st₂'.trans <|
    strest.mono (fun _ hw => hw.imp fun _ hk => ⟨List.mem_cons_of_mem _ hk.1, hk.2⟩) (fun _ => id) id
  have hk₁ : Known g (later (n :: rest) l') all d₁ :=
    ⟨hq₁.tail.known.mem, hq₁.tail.known.wired, hq₁.enter⟩
  refine ⟨s, hsl, (hw.stitched st₁).stitched st, st.interrupts hd₁ hh (fun q hq => ⟨hq.1, ?_⟩)
    hinterrupts⟩
  obtain ⟨hlive, howned⟩ := st.owned_back hd₁ hk₁ (hq₀.outside hr).sub hq.1 hq.2
  exact hq₁.liesIn hr ht₁ hlive howned

end ProcessNet.Construction
