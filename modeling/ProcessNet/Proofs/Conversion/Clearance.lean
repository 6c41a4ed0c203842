/-
Ends that clear a scope. Whatever puts a token on the end of a subprocess that raises an event, or on a
terminate end, is made to take from or to reset the rest of what belongs to the process.
-/
import ProcessNet.Proofs.Conversion.Interruption
import ProcessNet.Proofs.Net.Clearing

namespace ProcessNet.Construction

open Identifier Net ProcessGraph

variable {g : ProcessGraph} {P : Permit} {showEvents : Bool} {c c' : Construction} {f k : FlowId}
  {p q : PlaceId} {t : TransitionId} {n m : NodeId} {s : JoinedSubprocess}
  {l : List JoinedSubprocess} {scope scope' own : PlaceId → Prop} {targets : List PlaceId}

/-! ## Resets -/

theorem Stitches.closes (h : Stitches g P c c') (hc : c.Valid) (hlive : c'.net.hasPlace p)
    (hp : Closes t p c) : Closes t p c' :=
  hp.imp (fun ha => h.arc_kept hc ha hlive) fun ha => h.arc_kept hc ha hlive

theorem Closes.live (hc : c.Valid) (hp : Closes t p c) : c.net.hasPlace p :=
  hp.elim (fun ha => hc.consistent.livePlace _ ha) fun ha => hc.consistent.livePlace _ ha

theorem Stitches.closes_quiet (h : Stitches g {} c c') (hs : Sound g c) (hp : Closes t p c) :
    Closes t p c' := by
  refine h.closes hs.valid ?_ hp
  rw [Net.hasPlace, h.place?_eq (fun _ => id) id]
  exact hp.live hs.valid

/-- Scopes stay cleared as long as nothing new leads to the ends that clear them. -/
theorem Stitches.clears (h : Stitches g P c c') (hs : Sound g c)
    (hown : ∀ p, own p → ∃ f, c.flowPlaces.lookup f = some p ∧
      (∀ k, c.flowPlaces.lookup k = some p → k = f) ∧ Spares g P f)
    (hscope : ∀ q, scope' q → c'.net.hasPlace q ∧ scope q) (hclears : c.net.Clears scope own) :
    c'.net.Clears scope' own := by
  intro p t hp hout q hq hq'
  obtain ⟨f, hf, hsole, hspares⟩ := hown p hp
  obtain ⟨hlive, hq⟩ := hscope q hq
  exact h.closes hs.valid hlive (hclears p t hp (h.output_spared hs hf hsole hspares hout) q hq hq')

/-- `addResets` leads nowhere. -/
theorem Stitches.output_quiet (h : Stitches g {} c c') (ha : Arc.output t p ∈ c'.net.arcs) :
    Arc.output t p ∈ c.net.arcs := by
  induction h with
  | refl => exact ha
  | tail _ hstep ih =>
    refine ih ?_
    rcases hstep.1.output_back ha with ha | hnew
    · exact ha
    · cases hnew with
      | step _ hw => exact hw.elim
      | leave hs | opens hs | merge hs => exact hs.elim

theorem Stitches.of_quiet (h : Stitches g {} c c') : Stitches g P c c' :=
  h.mono (fun _ => False.elim) (fun _ => False.elim) False.elim

theorem sewn_addReset (h : addReset t p c = .ok () c') : Sewn g P c c' := by
  unfold addReset at h
  rw [get_bind] at h
  split at h
  · cases h
    exact .refl _
  · rename_i hnot
    exact sewn_addArc h (.reset fun ha => hnot (List.contains_iff_mem.2 ha))

theorem sewn_addResets (h : addResets targets t c = .ok () c') : Sewn g P c c' :=
  rel_of_forM Sewn.refl Sewn.trans (fun _ _ _ _ hrun => sewn_addReset hrun) h

theorem closes_addResets (hs : Sound g c) (h : addResets targets t c = .ok () c') (hq : q ∈ targets) :
    Closes t q c' := by
  obtain ⟨c₁, c₂, st₁, hturn, st₂, st₃⟩ :=
    exists_turn (P := {}) (fun _ _ _ _ _ hrun => sewn_addReset hrun) h hs hq
  have hs₁ := st₁.sound hs
  exact st₃.closes_quiet (st₂.sound hs₁) (closes_of_addReset hs₁.valid hturn)

theorem sewn_clearOnEntry (h : clearOnEntry p targets c = .ok () c') : Sewn g P c c' := by
  unfold clearOnEntry at h
  rw [get_bind] at h
  exact rel_of_forM Sewn.refl Sewn.trans (fun _ _ _ _ hrun => sewn_addResets hrun) h

/-- Whatever puts a token on `p` closes the targets. -/
theorem closes_clearOnEntry (hs : Sound g c) (h : clearOnEntry p targets c = .ok () c')
    (hout : Arc.output t p ∈ c.net.arcs) (hq : q ∈ targets) : Closes t q c' := by
  unfold clearOnEntry at h
  rw [get_bind] at h
  have ht := (mem_producers hs.valid.consistent.mirrored).2 hout
  obtain ⟨c₁, c₂, st₁, hturn, st₂, st₃⟩ :=
    exists_turn (P := {}) (fun _ _ _ _ _ hrun => sewn_addResets hrun) h hs ht
  have hs₁ := st₁.sound hs
  exact st₃.closes_quiet (st₂.sound hs₁) (closes_addResets hs₁ hturn hq)

theorem mem_scopePlaces {net : Net} {process : String} :
    p ∈ scopePlaces g net process ↔
      ∃ x, net.place? p = some x ∧ (g.isRoot process ∨ x.process = process) := by
  rw [scopePlaces, List.mem_map]
  constructor
  · rintro ⟨⟨q, x⟩, hmem, rfl⟩
    obtain ⟨hlive, hkeep⟩ := List.mem_filter.1 hmem
    exact ⟨x, mem_livePlaces.1 hlive, by simpa using hkeep⟩
  · rintro ⟨x, hx, hkeep⟩
    exact ⟨(p, x), List.mem_filter.2 ⟨mem_livePlaces.2 hx, by simpa using hkeep⟩, rfl⟩

/-- Each message on `s` takes from or resets each of these places. -/
def Interrupts (g : ProcessGraph) (s : JoinedSubprocess) (scope : PlaceId → Prop)
    (c : Construction) : Prop :=
  ∀ m ∈ g.boundaryEventsOf s.id, IsMessage (g.node m) →
    ∀ t, c.Bears t (boundaryName (g.node m).id s.parent) → ∀ q, scope q → Closes t q c

theorem Stitches.interrupts {raised : List PlaceId} (h : Stitches g P c c') (hs : Sound g c)
    (hh : Handled g l s (· ∈ g.boundaryEventsOf s.id) raised c)
    (hscope : ∀ q, scope' q → c'.net.hasPlace q ∧ scope q) (hi : Interrupts g s scope c) :
    Interrupts g s scope' c' := by
  intro m hm hmessage t ht q hq
  obtain ⟨u, _, hu⟩ := hh.message m hm hmessage
  obtain rfl := (h.bears hu.bears).unique (h.valid hs.valid).consistent ht
  obtain ⟨hlive, hq⟩ := hscope q hq
  exact h.closes hs.valid hlive (hi m hm hmessage u hu.bears q hq)

/-! ## Events on subprocesses -/

/-- `addSubprocessBoundaries` adds all events of a subprocess. What raises one of them clears the
subprocess, and so do the messages. -/
theorem stitches_addSubprocessBoundaries (hg : g.Normal) (hs : Sound g c) (hsub : P.sub s)
    (hl : ∀ r, P.sub r → r ∈ l)
    (hlive : ∀ r ∈ l, ∀ u ∈ r.enter :: r.exits, c.net.hasTransition u)
    (h : addSubprocessBoundaries g showEvents s c = .ok () c') :
    Stitches g P c c' ∧ Interrupts g s (fun q => c'.LiesIn q s.id) c' ∧
      ∃ raised, Handled g l s (· ∈ g.boundaryEventsOf s.id) raised c' ∧
        c'.net.Clears (fun q => c'.LiesIn q s.id) (· ∈ raised) := by
  obtain ⟨found, c₁, c₂, hevents, hraised, hmessages⟩ := addSubprocessBoundaries_eq_ok.1 h
  obtain ⟨st₁, hh⟩ := stitches_foldlM_boundaries hg hs hsub hl hlive (fun _ => id) .nothing hevents
  simp only [or_false] at hh
  have hs₁ := st₁.sound hs
  have st₂ : Stitches g {} c₁ c₂ := rel_of_forM (R := Sewn g {}) Sewn.refl Sewn.trans
    (fun _ _ _ _ hrun => sewn_clearOnEntry hrun) hraised hs₁
  have hs₂ := st₂.sound hs₁
  have st₃ : Stitches g {} c₂ c' := rel_of_forM (R := Sewn g {}) Sewn.refl Sewn.trans
    (fun _ _ _ _ hrun => sewn_addResets hrun) hmessages hs₂
  have st : Stitches g {} c₁ c' := st₂.trans st₃
  have hmem : ∀ q, c'.LiesIn q s.id → q ∈ scopePlaces g c₁.net s.id := fun q ⟨x, hx, hprocess⟩ =>
    mem_scopePlaces.2 ⟨x, (st.place?_eq (fun _ => id) id q).symm.trans hx, .inr hprocess⟩
  refine ⟨st₁.trans st.of_quiet, fun m hm hmessage t ht q hq => ?_, found.raised,
    st.handled (fun _ => False.elim) hs₁ hh, fun p t hp hout q hq hown => ?_⟩
  · obtain ⟨u, hu, _, hgate, _⟩ :=
      (guarded_foldlM hs.valid (hlive s (hl s hsub)) hevents).2 m hm hmessage
    obtain rfl := (st.bears hgate.bears).unique (st.valid hs₁.valid).consistent ht
    obtain ⟨d, d', st₄, hturn, st₅, st₆⟩ :=
      exists_turn (P := {}) (fun _ _ _ _ _ hrun => sewn_addResets hrun) hmessages hs₂ hu
    have hd := st₄.sound hs₂
    exact st₆.closes_quiet (st₅.sound hd) (closes_addResets hd hturn (hmem q hq))
  · obtain ⟨d, d', st₄, hturn, st₅, st₆⟩ :=
      exists_turn (P := {}) (fun _ _ _ _ _ hrun => sewn_clearOnEntry hrun) hraised hs₁ hp
    have hd := st₄.sound hs₁
    have hrest : Stitches g {} d' c' := st₆.trans st₃
    exact hrest.closes_quiet (st₅.sound hd) (closes_clearOnEntry hd hturn
      ((st₅.trans hrest).output_quiet hout)
      (List.mem_filter.2 ⟨hmem q hq, decide_eq_true hown⟩))

/-! ## Terminate ends -/

/-- The flow enters a terminate end of the process. -/
def Terminating (g : ProcessGraph) (f : FlowId) (process : String) : Prop :=
  (g.node (g.flow f).target).process = process ∧
    (g.node (g.flow f).target).kind = .endEvent .terminate

theorem Terminating.ne_normal {process : String} (h : Terminating g f process) :
    (g.node (g.flow f).target).kind ≠ .endEvent .normal := by
  rw [h.2]
  exact fun he => by cases he

theorem mem_terminationsOf {process : String} : n ∈ g.terminationsOf process ↔
    index n < g.nodes.size ∧ (g.node n).process = process ∧ (g.node n).kind = .endEvent .terminate := by
  simp [terminationsOf, mem_select]

/-- The places of the terminate ends of a process. -/
theorem terminations_eq_ok (hg : g.Normal) (hs : Sound g c) {process : String} {ps : List PlaceId}
    (h : (g.terminationsOf process).mapM (inPlace g) c = .ok ps c') :
    c' = c ∧ (∀ p, p ∈ ps ↔ ∃ f, c.flowPlaces.lookup f = some p ∧ Terminating g f process) ∧
      ∀ p ∈ ps, ∃ m, (m, p) ∈ (g.terminationsOf process).zip ps := by
  obtain ⟨rfl, hall⟩ := mapM_inPlace_eq_ok h
  refine ⟨rfl, fun p => ⟨fun hp => ?_, fun ⟨f, hf, hterm⟩ => ?_⟩, fun p hp => ?_⟩
  · obtain ⟨m, hm, hrun⟩ := exists_of_forall₂ hall.flip hp
    obtain ⟨-, f, hf, rfl⟩ := inPlace_takes hg.linked hrun
    exact ⟨f, hf, (mem_terminationsOf.1 hm).2⟩
  · have hm := mem_terminationsOf.2 ⟨hg.linked.target f (hs.bound f p hf), hterm⟩
    obtain ⟨q, hq, hrun⟩ := exists_of_forall₂ hall hm
    have hgateway : (g.node (g.flow f).target).kind.isGateway = false := by
      rw [hterm.2]
      rfl
    exact inPlace_eq_of_target hg hs hgateway hf rfl hrun ▸ hq
  · obtain ⟨i, hi, rfl⟩ := List.mem_iff_getElem.1 hp
    have hi' : i < (g.terminationsOf process).length := hall.length_eq ▸ hi
    refine ⟨(g.terminationsOf process)[i], List.mem_iff_getElem.2 ⟨i, ?_, List.getElem_zip⟩⟩
    rw [List.length_zip]
    exact Nat.lt_min.2 ⟨hi', hi⟩

/-- A loop each of whose turns clears a scope for one end, and leads from the end along the way `w`. -/
theorem clears_of_forM (process : String) {w : Way} {ps : List PlaceId}
    {turn : NodeId × PlaceId → ConstructionM PUnit} {events : List (NodeId × PlaceId)}
    (hs : Sound g c) (hown : ∀ p, own p ↔ p ∈ ps) (hps : ∀ p ∈ ps, ∃ m, (m, p) ∈ events)
    (hturn : ∀ e ∈ events, ∀ d d', Sound g d → d.flowPlaces = c.flowPlaces → turn e d = .ok () d' →
      ∃ d₁ x q t,
        clearOnEntry e.2 ((scopePlaces g d.net process).filter (· ∉ ps)) d = .ok () d₁ ∧
        addStep x [e.2] [q] d₁ = .ok t d' ∧ w.Leads g d x [e.2] [q])
    (h : events.forM turn c = .ok () c') :
    Stitches g { way := (· = w) } c c' ∧
      ((∀ p ∈ ps, ∃ f, c.flowPlaces.lookup f = some p ∧
          (g.node (g.flow f).target).kind ≠ .endEvent .normal ∧ ¬ w.Gives g f) →
        c'.net.Clears (fun q => q ∈ scopePlaces g c.net process) own) := by
  let P : Permit := { way := (· = w) }
  have hsewn : ∀ e ∈ events, ∀ d d', d.flowPlaces = c.flowPlaces → turn e d = .ok () d' →
      Sewn g P d d' := by
    intro e he d d' hd hrun hsd
    obtain ⟨d₁, x, q, t, hclear, hstep, hleads⟩ := hturn e he d d' hsd hd hrun
    have st₁ : Stitches g P d d₁ := sewn_clearOnEntry hclear hsd
    exact st₁.trans (sewn_addStep w hstep rfl (hleads.kept st₁.flowPlaces) (st₁.sound hsd))
  have hloop : Stitches g P c c' := sewn_forM hsewn h hs
  refine ⟨hloop, fun hspares p t hp hout q hq hnot => ?_⟩
  rw [hown] at hp hnot
  obtain ⟨m, hm⟩ := hps p hp
  obtain ⟨d, d', h₁, hrun, _, h₂⟩ := exists_turn hsewn h hs hm
  have hd := h₁.sound hs
  obtain ⟨d₁, x, r, u, hclear, hstep, hleads⟩ := hturn _ hm d d' hd h₁.flowPlaces hrun
  have st₁ : Stitches g {} d d₁ := sewn_clearOnEntry hclear hd
  have hd₁ := st₁.sound hd
  have st₂ : Stitches g P d₁ d' := sewn_addStep w hstep rfl (hleads.kept st₁.flowPlaces) hd₁
  have hrest := st₂.trans h₂
  obtain ⟨f, hf, hnormal, hgives⟩ := hspares p hp
  have hspare : Spares g P f :=
    ⟨fun w' hw _ => hw ▸ hgives, fun _ => False.elim, fun _ => False.elim⟩
  have hf₁ : d₁.flowPlaces.lookup f = some p := by rw [st₁.flowPlaces, h₁.flowPlaces, hf]
  have hout₁ := st₁.output_quiet (hrest.output_spared hd₁ hf₁
    (fun k hk => hd₁.eq_of_kind hf₁ hk hnormal) hspare hout)
  obtain ⟨x, hx, hkeep⟩ := mem_scopePlaces.1 hq
  have hxd : d.net.place? q = some x := (h₁.place?_eq (fun _ => id) id q).trans hx
  refine hrest.closes hd₁.valid ?_ (closes_clearOnEntry hd hclear hout₁
    (List.mem_filter.2 ⟨mem_scopePlaces.2 ⟨x, hxd, hkeep⟩, decide_eq_true hnot⟩))
  rw [Net.hasPlace, hloop.place?_eq (fun _ => id) id, hx]
  rfl

/-- By `terminateSubprocess` the terminate ends of a subprocess clear it, unless it leads to one of them
itself. -/
theorem stitches_terminateSubprocess (hg : g.Normal) (hs : Sound g c) (hw : Wired g n s c)
    (h : terminateSubprocess g s c = .ok () c') :
    Stitches g { way := (· = .skip n) } c c' ∧
      ((∀ f p, c.flowPlaces.lookup f = some p → Terminating g f s.id → (g.flow f).source ≠ n) →
        c'.net.Clears (fun q => c.LiesIn q s.id)
          fun p => ∃ f, c.flowPlaces.lookup f = some p ∧ Terminating g f s.id) := by
  obtain ⟨ps, c₁, hps, h₁⟩ := bind_eq_ok.1 h
  obtain ⟨rfl, hown, hzip⟩ := terminations_eq_ok hg hs hps
  obtain ⟨fout, hfout, hsource⟩ := hw.behind
  have hscope : ∀ q, c₁.LiesIn q s.id → q ∈ scopePlaces g c₁.net s.id := fun q ⟨x, hx, hprocess⟩ =>
    mem_scopePlaces.2 ⟨x, hx, .inr hprocess⟩
  refine And.imp id (fun hclears hborder p t hp hout q hq =>
      hclears (fun p hp => ?_) p t hp hout q (hscope q hq))
    (clears_of_forM s.id (w := .skip n) hs (fun p => (hown p).symm) hzip
      (fun e he d d' hd hflows hrun => ?_) h₁)
  · obtain ⟨m, p⟩ := e
    obtain ⟨f, hf, hprocess, hkind⟩ := (hown p).1 (List.of_mem_zip he).2
    dsimp only at hrun
    rw [get_bind] at hrun
    obtain ⟨_, d₁, hclear, hrun⟩ := bind_eq_ok.1 hrun
    obtain ⟨t, d₂, hstep, hrun⟩ := bind_eq_ok.1 hrun
    cases hrun
    refine ⟨d₁, _, _, t, hclear, hstep, ⟨hw.kind, ⟨trivial, hw.joined.parent⟩, fun _ => rfl,
      List.cons_ne_nil _ _,
      fun r hr => ?_, fun r hr => ?_⟩⟩
    · rw [List.mem_singleton.1 hr, hflows]
      exact ⟨f, hf, hprocess.trans hw.joined.id, hkind⟩
    · rw [List.mem_singleton.1 hr, hflows]
      exact ⟨fout, hfout, hsource⟩
  · obtain ⟨f, hf, hterm⟩ := (hown p).1 hp
    exact ⟨f, hf, hterm.ne_normal, hborder f p hf hterm⟩

/-- By `terminateRoot` the terminate ends of the root process clear everything. -/
theorem stitches_terminateRoot (hg : g.Normal) (hs : Sound g c)
    (h : terminateRoot g c = .ok () c') :
    Stitches g { way := (· = .stop) } c c' ∧ c'.net.Clears (fun q => c'.net.hasPlace q)
      fun p => ∃ f, c.flowPlaces.lookup f = some p ∧ Terminating g f g.processId := by
  obtain ⟨ps, c₁, hps, h₁⟩ := bind_eq_ok.1 h
  obtain ⟨rfl, hown, hzip⟩ := terminations_eq_ok hg hs hps
  have hscope : ∀ q, Stitches g { way := (· = .stop) } c₁ c' → c'.net.hasPlace q →
      q ∈ scopePlaces g c₁.net g.processId := by
    intro q st hq
    obtain ⟨x, hx⟩ := hasPlace_iff.1 hq
    rw [st.place?_eq (fun _ => id) id] at hx
    exact mem_scopePlaces.2 ⟨x, hx, .inl (decide_eq_true rfl)⟩
  refine (fun h => ⟨h.1, fun p t hp hout q hq =>
      h.2 (fun p hp => ?_) p t hp hout q (hscope q h.1 hq)⟩)
    (clears_of_forM g.processId (w := .stop) hs (fun p => (hown p).symm) hzip
      (fun e he d d' hd hflows hrun => ?_) h₁)
  · obtain ⟨m, p⟩ := e
    obtain ⟨f, hf, hprocess, hkind⟩ := (hown p).1 (List.of_mem_zip he).2
    dsimp only at hrun
    rw [get_bind] at hrun
    cases hsink : d.rootSink with
    | none => rw [hsink] at hrun; cases hrun
    | some sink =>
      rw [hsink] at hrun
      dsimp only at hrun
      rw [get_bind] at hrun
      obtain ⟨_, d₁, hclear, hrun⟩ := bind_eq_ok.1 hrun
      obtain ⟨t, d₂, hstep, hrun⟩ := bind_eq_ok.1 hrun
      cases hrun
      obtain ⟨k, hk, henters⟩ := hd.sink sink hsink
      refine ⟨d₁, _, _, t, hclear, hstep, ⟨trivial, ⟨trivial, rfl⟩, fun _ => rfl, List.cons_ne_nil _ _,
        fun r hr => ?_, fun r hr => ?_⟩⟩
      · rw [List.mem_singleton.1 hr, hflows]
        exact ⟨f, hf, hprocess, hkind⟩
      · rw [List.mem_singleton.1 hr]
        exact ⟨k, hk, henters⟩
  · obtain ⟨f, hf, hterm⟩ := (hown p).1 hp
    refine ⟨f, hf, hterm.ne_normal, fun henters => hterm.ne_normal ?_⟩
    exact (kind_of_entersRootEnd henters).1

end ProcessNet.Construction
