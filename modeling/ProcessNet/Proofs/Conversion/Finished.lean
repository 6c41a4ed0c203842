/-
Finished constructions: what holds of the whole when all parts are done. Every event on a subprocess has
its transition, every transition takes from some place, and the ends of each region clear its scope and
lead out of it.
-/
import ProcessNet.Proofs.Conversion.Doors
import ProcessNet.Proofs.Conversion.Finish

namespace ProcessNet.Construction

open Identifier Net ProcessGraph

variable {g : ProcessGraph} {P : Permit} {showEvents : Bool} {c c' : Construction} {f k : FlowId}
  {p q : PlaceId} {t u : TransitionId} {n m : NodeId} {s r : JoinedSubprocess}
  {l : List JoinedSubprocess} {inside : String → Prop}

/-- What holds of the region of a subprocess: its ends clear its scope and lead out of it, and tokens come
into its scope by its entry, from within or by an event. -/
structure Closed (g : ProcessGraph) (n : NodeId) (inside : String → Prop)
    (l : List JoinedSubprocess) (s : JoinedSubprocess) (raised : List PlaceId) (c : Construction) :
    Prop where
  mem : s ∈ l
  wired : Wired g n s c
  settled : Settled g inside l s raised c
  contained : Contained g n inside l c
  leaving : Leaving l (fun f => Ending g f (g.node n).id) (fun k => ¬ inside (g.flow k).process) c

/-- What holds of a construction when `construct` is done. -/
structure Finished (g : ProcessGraph) (l : List JoinedSubprocess) (c : Construction) : Prop where
  sound : Sound g c
  wired : List.Forall₂ (fun m r => Wired g m r c) g.subprocessesInnermostFirst l
  handled : ∀ r ∈ l, ∃ raised, Handled g l r (· ∈ g.boundaryEventsOf r.id) raised c
  driven : Driven g l c
  quiet : Quiet g c
  orderly : Orderly c
  marked : Marked g c
  terminated : c.net.Clears (fun q => c.net.hasPlace q)
    fun p => ∃ f, c.flowPlaces.lookup f = some p ∧ Terminating g f g.processId
  stopping : Leaving l (fun f => Terminating g f g.processId) (fun k => entersRootEnd g (g.flow k)) c
  sink : ∀ f p t, c.flowPlaces.lookup f = some p → entersRootEnd g (g.flow f) →
    Arc.input p t ∉ c.net.arcs
  closed : ∀ n inside, g.Region n inside → ∃ s raised, Closed g n inside l s raised c
  interrupts : ∀ n inside, g.Enclosure n inside → ∃ s ∈ l, Wired g n s c ∧
    Interrupts g s (fun q => c.net.hasPlace q ∧ Owned g inside l c q) c

/-! ## Before the subprocesses are finished -/

/-- The way does not start from a terminate end. -/
def Way.isEarly : Way → Bool
  | through _ | aside _ _ | into _ | outOf _ => true
  | skip _ | stop => false

/-- What may be done before `finish` is called. -/
def early : Permit where
  way w := w.isEarly

/-- No early way takes from an end that clears its process. -/
theorem Way.not_takes_of_early {w : Way} {process : String} (hw : w.isEarly) (hfits : w.Fits g)
    (hend : Ending g f process) : ¬ w.Takes g f := by
  rcases hend with ⟨_, hkind⟩ | hraising
  · intro htakes
    obtain ⟨m, rfl⟩ | rfl := eq_of_terminate hfits htakes hkind <;> cases hw
  · exact not_takes hfits hraising

/-- `joinSubprocesses` has joined the subprocesses, the innermost first, and nothing is finished yet. -/
structure Prepared (g : ProcessGraph) (l : List JoinedSubprocess) (ground c : Construction) :
    Prop where
  grounded : Ground g ground
  stitches : Stitches g early ground c
  wired : List.Forall₂ (fun m r => Wired g m r c) g.subprocessesInnermostFirst l
  enter : l.Pairwise fun s r => s.enter ≠ r.enter
  made : Made g ground

namespace Prepared

variable {ground : Construction}

theorem sound (h : Prepared g l ground c) : Sound g c := h.stitches.sound h.grounded.sound

theorem eq_of_enter (h : Prepared g l ground c) :
    ∀ s ∈ l, ∀ r ∈ l, s.enter = r.enter → s = r :=
  List.inj_on_of_nodup_map (List.pairwise_map.2 h.enter)

theorem queue (h : Prepared g l ground c) : Queue g l g.subprocessesInnermostFirst l c where
  wired := h.wired
  sorted := pairwise_depth g
  nodup := (List.mergeSort_perm _ _).nodup_iff.2 (nodup_select _)
  rest _ hk := .inl (mem_of_isSubprocess hk)
  mem _ := id
  enter := h.eq_of_enter
  live r hr u hu := by
    obtain ⟨m, _, hw⟩ := exists_of_forall₂ h.wired.flip hr
    exact hw.joined.live_all u hu

theorem known (h : Prepared g l ground c) (hP : ∀ s, ¬ P.sub s) : Known g P l c' :=
  ⟨fun s hs => absurd hs (hP s), fun s hs => absurd hs (hP s), h.eq_of_enter⟩

theorem input_enter (h : Prepared g l ground c) :
    ∀ s ∈ l, ∃ p, Arc.input p s.enter ∈ c.net.arcs := by
  intro s hs
  obtain ⟨m, _, hw⟩ := exists_of_forall₂ h.wired.flip hs
  obtain ⟨_, p, _, _, ha⟩ := hw.front
  exact ⟨p, ha⟩

/-- Ends that clear their process have no consumers yet. -/
theorem leaving (h : Prepared g l ground c) {ends there : FlowId → Prop} {process : String}
    (hends : ∀ f, ends f → Ending g f process) : Leaving l ends there c := by
  intro f p t hf hend ha
  have hs := h.grounded.sound
  have hf := h.stitches.flowPlaces ▸ hf
  have hending := hends f hend
  refine absurd ha (h.stitches.no_input hs hf (fun w hw hfits k hk => ?_) (fun _ => False.elim)
    (fun t => h.grounded.not_mem_arcs _) t)
  exact Way.not_takes_of_early hw hfits (hs.eq_of_kind hf hk hending.ne_normal ▸ hending)

theorem contained (h : Prepared g l ground c) (hr : g.Region n inside) : Contained g n inside l c :=
  h.stitches.contained hr h.grounded.sound (h.known fun _ => id)
    fun _ _ _ ha => absurd ha (h.grounded.not_mem_arcs _)

theorem tracked (h : Prepared g l ground c) (hr : g.Enclosure n inside) :
    Tracked g inside l l c := by
  have hplace := h.stitches.place?_eq (fun _ => id) id
  refine ⟨fun q x hx hq => ?_, fun q x _ hin => ?_⟩
  · rw [hplace] at hx
    rcases hq with ⟨f, hf, hin⟩ | ⟨⟨y, hy, hrole⟩, _⟩
    · rw [MadeFor, h.stitches.flowPlaces] at hf
      obtain ⟨y, hy, hprocess⟩ := h.made.liesIn f q hf
      rw [hy] at hx
      cases hx
      exact hprocess ▸ hin
    · exact absurd ⟨y, (hplace q).symm.trans hy, hrole⟩ (h.grounded.role q)
  · obtain ⟨m, hm, hid⟩ := hr.held _ hin
    obtain ⟨r, hrl, hw⟩ := exists_record h.wired hm
    exact ⟨r, hrl, hw.joined.id.trans hid⟩

end Prepared

/-- The parts of `construct` before `finish` is called. -/
theorem prepared_of_parts {ground c₁ c₂ c₃ : Construction} (hg : g.Normal)
    (hflows : addFlowPlaces g (start g) = .ok () ground) (hnodes : addNodes g ground = .ok () c₁)
    (hjoin : joinSubprocesses g c₁ = .ok l c₂) (htasks : addTaskBoundaries g showEvents c₂ = .ok () c₃) :
    Prepared g l ground c₃ := by
  have hground := ground_of_addFlowPlaces hflows
  have st₁ : Stitches g early ground c₁ := sewn_addNodes hg.linked (fun _ => rfl) hnodes
    hground.sound
  have hs₁ := st₁.sound hground.sound
  obtain ⟨st₂, hwired, henter⟩ := wired_of_joinSubprocesses (P := early) hg.linked
    (fun _ => rfl) (fun _ => rfl) hs₁ hjoin
  have st₃ : Stitches g early c₂ c₃ := sewn_addTaskBoundaries hg.linked (fun _ _ => rfl)
    htasks (st₂.sound hs₁)
  exact ⟨hground, st₁.trans (st₂.trans st₃), hwired.imp fun _ _ hw => hw.stitched st₃, henter,
    made_of_addFlowPlaces hg.distinct hflows⟩

theorem prepared_of_construct (hg : g.Normal) (h : construct g showEvents (start g) = .ok () c) :
    ∃ ground c₁ c₂ l, Prepared g l ground c₁ ∧ l.forM (finish g showEvents) c₁ = .ok () c₂ ∧
      terminateRoot g c₂ = .ok () c := by
  obtain ⟨ground, c₁, c₂, c₃, c₄, l, hflows, hnodes, hjoin, htasks, hfinish, hroot⟩ :=
    construct_eq_ok h
  exact ⟨ground, c₃, c₄, l, prepared_of_parts hg hflows hnodes hjoin htasks, hfinish, hroot⟩

/-! ## The whole -/

/-- What may be done once `finish` is called. -/
def late (l : List JoinedSubprocess) : Permit where
  way _ := True
  sub := (· ∈ l)
  absorbs := True

theorem Prepared.known_late {ground : Construction} (h : Prepared g l ground c) :
    Known g (late l) l c where
  mem _ := id
  wired r hr := by
    obtain ⟨m, _, hw⟩ := exists_of_forall₂ h.wired.flip hr
    exact ⟨m, hw⟩
  enter := h.eq_of_enter

/-- Nothing takes from the sink. -/
theorem Way.not_takes_of_root {w : Way}
    (happart : ∀ m, (g.node m).kind.isSubprocess → (g.node m).id ≠ g.processId) (hfits : w.Fits g)
    (hroot : entersRootEnd g (g.flow f)) : ¬ w.Takes g f := by
  obtain ⟨hkind, hprocess⟩ := kind_of_entersRootEnd hroot
  intro htakes
  cases w with
  | through m | into m =>
    rw [Takes] at htakes
    rw [Fits, ← htakes, hkind] at hfits
    first | exact hfits | cases hfits
  | aside task event =>
    rw [Takes] at htakes
    have htask := hfits.1
    rw [← htakes, hkind] at htask
    cases htask
  | outOf m => exact happart m hfits (htakes.1.symm.trans hprocess)
  | skip m | stop =>
    have hterminate := htakes.2
    rw [hkind] at hterminate
    cases hterminate

/-- A flow that shares its place with one into the sink leads there, too. -/
theorem Sound.entersRootEnd (hs : Sound g c) (hf : c.flowPlaces.lookup f = some p)
    (hk : c.flowPlaces.lookup k = some p) (hroot : Construction.entersRootEnd g (g.flow f)) :
    Construction.entersRootEnd g (g.flow k) := by
  rcases hs.shared f k p hf hk with rfl | ⟨_, hk⟩
  · exact hroot
  · exact hk

theorem finished_of_construct (hg : g.Normal)
    (happart : ∀ m, (g.node m).kind.isSubprocess → (g.node m).id ≠ g.processId)
    (h : construct g showEvents (start g) = .ok () c) : ∃ l, Finished g l c := by
  obtain ⟨ground, c₁, c₂, l, hprep, hfinish, hroot⟩ := prepared_of_construct hg h
  have hs₁ := hprep.sound
  obtain ⟨stfinish, hhandled⟩ := stitches_finishes hg hs₁ hprep.queue hfinish
  have hs₂ := stfinish.sound hs₁
  obtain ⟨stroot, hclears⟩ := stitches_terminateRoot hg hs₂ hroot
  have stfinish' : Stitches g (late l) c₁ c₂ := stfinish.mono (fun _ _ => trivial) (fun _ => id) id
  have stroot' : Stitches g (late l) c₂ c :=
    stroot.mono (fun _ _ => trivial) (fun _ => False.elim) False.elim
  have st := stfinish'.trans stroot'
  have hs := st.sound hs₁
  have hground := hprep.grounded
  have hknown := hprep.known_late
  refine ⟨l, {
    sound := hs
    wired := hprep.wired.imp fun _ _ hw => hw.stitched st
    handled := fun r hr => ?handled
    driven := st.driven (fun _ => id) (hprep.stitches.driven (fun _ => False.elim) fun t ht => ?driven)
    quiet := st.quiet hs₁ (hprep.stitches.quiet hground.sound
      fun _ _ _ _ _ _ ha => absurd ha (hground.not_mem_arcs _))
    orderly := st.orderly hs₁.valid (hprep.stitches.orderly hground.valid
      ⟨fun _ _ ha => absurd ha (hground.not_mem_arcs _), fun _ _ => hground.not_mem_arcs _⟩)
    marked := st.marked (hprep.stitches.marked fun p hp => ?marked)
    terminated := stroot.flowPlaces ▸ hclears
    stopping := st.leaving (outlet_of_root happart) hs₁ (fun _ => id) hprep.input_enter
      (hprep.leaving fun _ => .inl)
    sink := fun f p t hf hsink => ?sink
    closed := fun n inside hr => ?closed
    interrupts := fun n inside hr => ?interrupts }⟩
  case handled =>
    obtain ⟨raised, hh⟩ := hhandled r hr
    exact ⟨raised, stroot.handled (fun _ => False.elim) hs₂ hh⟩
  case driven =>
    rw [Net.hasTransition, hground.transitions] at ht
    cases ht
  case marked =>
    rw [hground.unmarked] at hp
    exact absurd hp (Nat.lt_irrefl 0)
  case sink =>
    -- the sink was made before all arcs, and no step lets anything take from it
    have stearly : Stitches g (late l) ground c₁ :=
      hprep.stitches.mono (fun _ _ => trivial) (fun _ => False.elim) False.elim
    have stall := stearly.trans st
    rw [stall.flowPlaces] at hf
    have hsound := hground.sound
    exact stall.no_input hsound hf
      (fun w _ hfits k hk =>
        Way.not_takes_of_root happart hfits (hsound.entersRootEnd hf hk hsink))
      (fun s _ k hk hraising => hraising.ne_normal
        (kind_of_entersRootEnd (hsound.entersRootEnd hf hk hsink)).1)
      (fun t => hground.not_mem_arcs _) t
  case closed =>
    -- what its turn settles stays so: the root process takes from none of the ends inside
    obtain ⟨s, hsl, hw, raised, hsettled⟩ := settled_of_finishes hg hr
      (mem_of_isSubprocess hr.subprocess) hs₁ hprep.queue (hprep.tracked hr.toEnclosure) hfinish
    refine ⟨s, raised, hsl, hw.stitched stroot, ?_, st.contained hr hs₁ hknown (hprep.contained hr),
      st.leaving (outlet_of_region hg.distinct hr) hs₁ (fun _ => id) hprep.input_enter
        (hprep.leaving fun _ => id)⟩
    exact stroot.settled hr hs₂ (hprep.known fun _ => id)
      ⟨fun w hw => .inl hw, fun _ => False.elim⟩ hsettled
  case interrupts =>
    obtain ⟨s, hsl, hw, hinterrupts⟩ := interrupts_of_finishes hg hr
      (mem_of_isSubprocess hr.subprocess) hs₁ hprep.queue (hprep.tracked hr) hfinish
    obtain ⟨raised, hh⟩ := hhandled s hsl
    exact ⟨s, hsl, hw.stitched stroot, stroot.interrupts hs₂ hh (fun q hq => ⟨hq.1,
      stroot.owned_back hs₂ (hprep.known fun _ => id) (fun _ => False.elim) hq.1 hq.2⟩)
      hinterrupts⟩

/-! ## What follows -/

namespace Finished

variable {raised : List PlaceId} (hfin : Finished g l c)
include hfin

theorem exists_wired (hs : s ∈ l) : ∃ m, Wired g m s c := by
  obtain ⟨m, _, hw⟩ := exists_of_forall₂ hfin.wired.flip hs
  exact ⟨m, hw⟩

/-- The transition of an event takes from a scope around the subprocess that the event is on. -/
theorem exists_input_of_event (hs : s ∈ l) (hm : m ∈ g.boundaryEventsOf s.id)
    (ht : c.Bears t (boundaryName (g.node m).id s.parent)) : ∃ p, Arc.input p t ∈ c.net.arcs ∧
      ((∃ f, c.flowPlaces.lookup f = some p ∧ Raising g f s.id) ∨
        IsGate c p ∧ Arc.output s.enter p ∈ c.net.arcs) := by
  obtain ⟨raised, hh⟩ := hfin.handled s hs
  have hconsistent := hfin.sound.valid.consistent
  obtain ⟨_, trigger, hkind⟩ := mem_boundaryEventsOf.1 hm
  have hinternal : trigger.isInternal → IsInternal (g.node m) := fun h => ⟨trigger, s.id, hkind, h⟩
  cases trigger with
  | error | cancel =>
    obtain ⟨u, p, hu, _⟩ := hh.internal m hm (hinternal rfl)
    obtain rfl := ht.unique hconsistent hu.bears
    exact ⟨p, (hu.input p).2 rfl, .inl hu.raising⟩
  | message =>
    obtain ⟨u, p, hu⟩ := hh.message m hm ⟨s.id, hkind⟩
    obtain rfl := ht.unique hconsistent hu.bears
    exact ⟨p, (hu.input p).2 rfl, .inr ⟨hu.gate, hu.opened⟩⟩

/-- Each transition takes from some place. -/
theorem exists_input (ht : c.net.hasTransition t) : ∃ p, Arc.input p t ∈ c.net.arcs := by
  rcases hfin.driven t ht with hin | ⟨s, hs, _, m, hm, hbears⟩
  · exact hin
  · obtain ⟨p, ha, _⟩ := hfin.exists_input_of_event hs hm hbears
    exact ⟨p, ha⟩

/-- Tokens come into a scope by its entry or from within. -/
theorem fed (hr : g.Region n inside) (hc : Closed g n inside l s raised c)
    {enter : TransitionId → Bool}
    (henter : ∀ t, c.Bears t (entryName (g.node n).id (g.node n).process) → enter t) :
    c.net.Fed enter (Scoped g inside l c) := by
  intro q t hq ha
  have hlive : ∀ p, Arc.input p t ∈ c.net.arcs → c.net.hasPlace p :=
    fun _ => hfin.sound.valid.consistent.livePlace _
  rcases hc.contained t q hq.2 ha with hbears | ⟨p, hp, hin⟩ | ⟨r, hrl, hin, m, hm, hbears⟩
  · exact .inl (henter t hbears)
  · exact .inr ⟨p, ⟨hlive p hin, hp⟩, hin⟩
  · obtain ⟨p, harc, hp⟩ := hfin.exists_input_of_event hrl hm hbears
    refine .inr ⟨p, ⟨hlive p harc, ?_⟩, harc⟩
    rcases hp with ⟨f, hf, hraising⟩ | ⟨hgate, hopened⟩
    · refine .inl ⟨f, hf, (hr.confined.target f (hfin.sound.bound f p hf)).2 ?_⟩
      rwa [hraising.1]
    · exact .inr ⟨hgate, r, hrl, hin, hopened⟩

omit hfin in
/-- What takes from the ends of a subprocess leads out of its scope. -/
theorem leaves (hr : g.Region n inside) (hs : Sound g c) (hc : Closed g n inside l s raised c)
    {own : PlaceId → Prop}
    (hown : ∀ p, own p → ∃ f, c.flowPlaces.lookup f = some p ∧ Ending g f (g.node n).id) :
    c.net.Leaves (Scoped g inside l c) own := by
  intro p t hp ha q hq hout
  obtain ⟨f, hf, hend⟩ := hown p hp
  obtain ⟨k, hk, hnot⟩ := (hc.leaving f p t hf hend ha).2 q hout
  exact hnot (inside_of_flow hr hs hq.2 hk)

/-- Along a run that enters the subprocess at most once, and whose last firing that puts a token on an
end decides, a token on an end means that nothing else is left in the scope. -/
theorem swept (hr : g.Region n inside) (hc : Closed g n inside l s raised c) {own : PlaceId → Prop}
    (hown : ∀ p, own p → c.net.hasPlace p ∧
      ∃ f, c.flowPlaces.lookup f = some p ∧ Ending g f (g.node n).id)
    (hclears : c.net.Clears (Scoped g inside l c) own) {enter : TransitionId → Bool}
    (henter : ∀ t, c.Bears t (entryName (g.node n).id (g.node n).process) → enter t)
    {ts : List TransitionId} {x : Tokens} (hrun : c.net.Run c.initial.tokens ts x)
    (honce : ts.countP enter ≤ 1)
    (hlast : c.net.LastDecides (Scoped g inside l c) own c.initial.tokens ts) (hp : own p)
    (hmarked : 0 < x p) : Swept (Scoped g inside l c) own x := by
  refine hclears.swept_of_run (hfin.fed hr hc henter)
    (leaves hr hfin.sound hc fun p hp => (hown p hp).2) (fun p hp => ?_)
    (fun q hq => hfin.marked.eq_zero hr hfin.sound hq.2) hrun honce hlast hp hmarked
  obtain ⟨hlive, f, hf, hend⟩ := hown p hp
  refine ⟨hlive, .inl ⟨f, hf, (hr.confined.target f (hfin.sound.bound f p hf)).2 ?_⟩⟩
  rw [hend.process]
  exact hr.self

end Finished

end ProcessNet.Construction
