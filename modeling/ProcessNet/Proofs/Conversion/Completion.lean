/-
What the construction requires once the subprocesses are joined. Each event on a subprocess has a flow behind
it, and an error or a cancellation has an end that raises it. When the turn of a subprocess comes, only places
of flows into its own ends or deeper ones were merged into others, so that all other places are still there.
-/
import ProcessNet.Proofs.Conversion.Requirements

namespace ProcessNet

namespace Construction

open Identifier Net ProcessGraph

variable {g : ProcessGraph} {P : Permit} {c c' d : Construction} {f : FlowId} {p main duplicate : PlaceId}
  {t : TransitionId} {n m e : NodeId} {s : JoinedSubprocess} {showEvents : Bool} {id : String}
  {all l : List JoinedSubprocess} {nodes : List NodeId} {done : List String} {gates : Nat}
  {steps : List Step} {place : FlowId → PlaceId} {trigger : BoundaryTrigger} {activity : String}

/-! ## Places that are left -/

/-- Places that are gone were those of flows into ends that raise something in what is done. -/
theorem Lodged.hasPlace (hg : g.Linked) (h : Lodged g done gates place c)
    (hf : c.flowPlaces.lookup f = some p) (hout : ∀ id ∈ done, ¬ Raising g f id) : c.net.hasPlace p := by
  cases hp : c.net.hasPlace p with
  | true => rfl
  | false =>
    obtain ⟨k, id, hid, m, -, hfm, -⟩ := h.lost f p hf hp
    exact absurd (raising_of_mem hg hfm) (hout id hid)

/-- A flow that belongs to a process around all that is done raises nothing in there. -/
theorem not_raising_of_local (hlocal : g.Local) (hf : index f < g.flows.size)
    (hsource : (g.node (g.flow f).source).process ∉ done) : ∀ id ∈ done, ¬ Raising g f id := by
  rintro _ hid ⟨rfl, -⟩
  rw [hlocal.target f hf, ← hlocal.source f hf] at hid
  exact hsource hid

theorem Terminating.not_raising (h : Terminating g f id) (id' : String) : ¬ Raising g f id' := by
  rintro ⟨-, trigger, hinternal, hkind⟩
  rw [h.2] at hkind
  cases trigger with
  | error | cancel => cases hkind
  | message => cases hinternal

/-! ## Ends that are merged -/

theorem checks_mergeInto (hc : Sturdy c) (hmain : c.net.hasPlace main) (hdup : c.net.hasPlace duplicate) :
    Checks (fun _ d => Sturdy d ∧ (∀ q, q ≠ duplicate → c.net.hasPlace q → d.net.hasPlace q) ∧
      ∀ t, c.net.hasTransition t → d.net.hasTransition t) True (mergeInto main duplicate) c := by
  refine checks_get (Checks.after (grows_addArcs hc fun t ht => ⟨hmain, ?_⟩) fun _ d _ hd => ?_)
  · exact hc.consistent.liveTransition (.output t duplicate) ((mem_producers hc.consistent.mirrored).1 ht)
  · have hremoved : Checks (fun _ d' => Sturdy d' ∧
        (∀ q, q ≠ duplicate → c.net.hasPlace q → d'.net.hasPlace q) ∧
          ∀ t, c.net.hasTransition t → d'.net.hasTransition t) True
        (onNet (·.removePlace duplicate)) d := by
      refine checks_onNet hd.sturdy (e := .removePlace duplicate) rfl (fun net x hgone hnet => ?_)
        fun e he => ?_
      · have hgone := hd.sturdy.consistent.removePlace hgone
        refine ⟨hnet, fun q hq hlive => ?_, fun t ht => ?_⟩
        · rw [Net.hasPlace, hgone.place?, if_neg hq]
          exact hd.place q hlive
        · exact hasTransition_mono hgone.transition? t (hd.transition t ht)
      · obtain ⟨_, _, hok, -⟩ := hd.sturdy.consistent.exists_removePlace (hd.place _ hdup)
        rw [hok] at he
        cases he
    exact hremoved.after fun _ _ _ hd' => checks_pure hd'

/-- `mergeInto` puts all the other ends into the first one. -/
theorem checks_mergeIntos {duplicates : List PlaceId} (hc : Sturdy c)
    (hlive : ∀ q ∈ main :: duplicates, c.net.hasPlace q) (hnodup : (main :: duplicates).Nodup) :
    Checks (fun _ d => Sturdy d ∧ d.net.hasPlace main ∧ ∀ t, c.net.hasTransition t → d.net.hasTransition t)
      True (duplicates.forM (mergeInto main)) c := by
  refine (Checks.forM (R := fun _ => True) (I := fun rest d => Sturdy d ∧
      (∀ q ∈ main :: rest, d.net.hasPlace q) ∧ (main :: rest).Nodup ∧
        ∀ t, c.net.hasTransition t → d.net.hasTransition t)
    (fun q rest d hd => ?_) ⟨hc, hlive, hnodup, fun _ => id⟩).mono
    (fun _ _ h => ⟨h.1, h.2.1 main List.mem_cons_self, h.2.2.2⟩) (iff_true_intro fun _ _ => trivial)
  obtain ⟨hd, hlive, hnodup, htransitions⟩ := hd
  rw [List.nodup_cons, List.nodup_cons, List.mem_cons, not_or] at hnodup
  obtain ⟨⟨hne, hmain⟩, hq, hrest⟩ := hnodup
  refine (checks_mergeInto hd (hlive main List.mem_cons_self)
    (hlive q (List.mem_cons_of_mem _ List.mem_cons_self))).mono (fun _ d' ⟨hd', hkept, hkeptT⟩ => ?_) Iff.rfl
  refine ⟨hd', fun r hr => hkept r ?_ (hlive r ?_), List.nodup_cons.2 ⟨hmain, hrest⟩, fun t ht =>
    hkeptT t (htransitions t ht)⟩
  · rcases List.mem_cons.1 hr with rfl | hr
    · exact hne
    · exact fun he => hq (he ▸ hr)
  · rcases List.mem_cons.1 hr with rfl | hr
    · exact List.mem_cons_self
    · exact List.mem_cons_of_mem _ (List.mem_cons_of_mem _ hr)

theorem grows_collectEnd (hg : g.Linked) (hc : Sturdy c) (hflows : Provided g c) (found : List PlaceId)
    (hin : (g.node n).incoming ≠ []) : Grows True (collectEnd g found n) c := by
  refine Grows.after ((grows_inPlace hg hc hflows n).iff (iff_true_intro hin)) fun p d _ hd => ?_
  refine checks_get ?_
  split
  · exact grows_pure hd.sturdy _
  · exact grows_pure hd.sturdy _

/-- Where an end raises the event, the place of one such end is left: that which all flows into them have. -/
theorem Ledger.exists_end (hg : g.Normal) (hs : Sound g c) (hl : Ledger g done gates steps place c)
    (hkind : (g.node m).kind = .boundaryEvent trigger activity) (hinternal : trigger.isInternal)
    (he : e ∈ raisingEnds g id (g.node m) trigger) (hin : (g.node e).incoming ≠ []) :
    ∃ f p, c.flowPlaces.lookup f = some p ∧ c.net.hasPlace p ∧
      (g.flow f).target ∈ raisingEnds g id (g.node m) trigger := by
  obtain ⟨f, hf⟩ := ne_nil_iff_exists_mem.1 hin
  obtain ⟨hlt, rfl⟩ := (hg.linked.mem_incoming e f).1 hf
  have hfm : f ∈ g.raisingFlows id (g.node m) := (mem_raisingFlows hg.linked).2
    ⟨hlt, mem_endsRaising.2 ⟨trigger, activity, hkind, hinternal, he⟩⟩
  obtain ⟨hlive, -⟩ := hl.lodged.live f hlt
  obtain ⟨k, hk⟩ := hl.lodged.exists_lookup hlt
  have hbound := hs.bound k _ hk
  have hsame := hl.lodged.same f k hlt hbound (hl.lodged.found k _ hk hlive).symm
  obtain ⟨_, _, hkind', _, hend⟩ := mem_endsRaising.1
    ((mem_raisingFlows hg.linked).1 (hsame.mem_raisingFlows hg.linked hbound hfm)).2
  cases hkind.symm.trans hkind'
  exact ⟨k, _, hk, hlive, hend⟩

/-- `mergeRaisingEnds` merges the ends that raise an event into one, if there are any. -/
theorem checks_mergeRaisingEnds (hg : g.Normal) (hs : Sound g c) (hc : Sturdy c) (hflows : Provided g c)
    (hl : Ledger g done gates steps place c) (hkind : (g.node m).kind = .boundaryEvent trigger activity)
    (hinternal : trigger.isInternal)
    (hends : ∀ e ∈ raisingEnds g s.id (g.node m) trigger, (g.node e).incoming ≠ []) :
    Checks (fun main d => Sturdy d ∧ d.net.hasPlace main ∧
      ∀ t, c.net.hasTransition t → d.net.hasTransition t)
      (raisingEnds g s.id (g.node m) trigger ≠ []) (mergeRaisingEnds g s (g.node m) trigger) c := by
  unfold mergeRaisingEnds
  refine Checks.after (grows_foldlM hc fun e he found d hd =>
    grows_collectEnd hg.linked hd.sturdy (hflows.kept hd.flowPlaces) found (hends e he))
    fun ps d hcollect _ => ?_
  obtain ⟨rfl, hnodup, hmem, -, hall⟩ := collectEnds_eq_ok hcollect
  cases ps with
  | nil =>
    -- an end whose place is left would have been collected
    refine .inr ⟨trivial, fun hne => ?_⟩
    obtain ⟨e, he⟩ := ne_nil_iff_exists_mem.1 hne
    obtain ⟨f, p, hf, hlive, hend⟩ := hl.exists_end hg hs hkind hinternal he (hends e he)
    obtain ⟨q, hq, hfound⟩ := hall _ hend
    have hgateway : (g.node (g.flow f).target).kind.isGateway = false := by
      rw [(mem_raisingEnds.1 hend).2.2.1]
      rfl
    rw [inPlace_eq_of_target hg hs hgateway hf rfl hq] at hfound
    exact absurd (hfound hlive) List.not_mem_nil
  | cons main duplicates =>
    have hcollected : ∀ q ∈ main :: duplicates,
        d.net.hasPlace q ∧ ∃ e, e ∈ raisingEnds g s.id (g.node m) trigger := by
      intro q hq
      rcases hmem q hq with hq | ⟨e, he, -, hlive⟩
      · exact absurd hq List.not_mem_nil
      · exact ⟨hlive, e, he⟩
    refine Checks.iff ?_ (iff_true_intro
      (ne_nil_iff_exists_mem.2 (hcollected main List.mem_cons_self).2)).symm
    exact Checks.after (checks_mergeIntos hc (fun q hq => (hcollected q hq).1) (hnodup List.nodup_nil))
      fun _ d' _ hd' => checks_pure hd'

/-! ## Turns -/

/-- What is known of a construction while `finish` deals with subprocesses. Those of the list are left,
with their nodes, and what is done lies around none of them. -/
structure Pending (g : ProcessGraph) (all : List JoinedSubprocess) (done : List String)
    (nodes : List NodeId) (l : List JoinedSubprocess) (c : Construction) : Prop where
  sound : Sound g c
  sturdy : Sturdy c
  provided : Provided g c
  queue : Queue g all nodes l c
  booked : ∃ gates steps place, Ledger g done gates steps place c
  outer : ∀ n ∈ nodes, (g.node n).process ∉ done

theorem Pending.stitched (h : Pending g all done nodes l c) (st : Stitches g P c d) (hd : Sturdy d)
    (hbooked : ∃ gates steps place, Ledger g done gates steps place d) : Pending g all done nodes l d where
  sound := st.sound h.sound
  sturdy := hd
  provided := h.provided.kept st.flowPlaces
  queue := h.queue.stitched st
  booked := hbooked
  outer := h.outer

theorem Pending.hasPlace (hg : g.Linked) (h : Pending g all done nodes l c)
    (hf : c.flowPlaces.lookup f = some p) (hout : ∀ id ∈ done, ¬ Raising g f id) : c.net.hasPlace p := by
  obtain ⟨_, _, _, hl⟩ := h.booked
  exact hl.lodged.hasPlace hg hf hout

/-- When its turn comes, a subprocess may be counted among what is done: those that are left are not deeper,
so none of them lies in it. -/
theorem Pending.opened (hlayered : g.Layered) (h : Pending g all done (n :: nodes) (s :: l) c) :
    Pending g all (s.id :: done) (n :: nodes) (s :: l) c := by
  obtain ⟨hw, -⟩ := List.forall₂_cons.1 h.queue.wired
  obtain ⟨gates, steps, place, hl⟩ := h.booked
  refine { h with
    booked := ⟨gates, steps, place, hl.mono (List.subset_cons_self s.id done)⟩
    outer := fun m hm hin => ?_ }
  rcases List.mem_cons.1 hin with hinner | hin
  · obtain ⟨_, _, hwm⟩ := exists_of_forall₂ h.queue.wired hm
    rw [hw.joined.id] at hinner
    have hlt := hlayered.deeper m n hwm.kind hw.kind hinner
    rcases List.mem_cons.1 hm with rfl | hm
    · exact Nat.lt_irrefl _ hlt
    · exact Nat.not_lt.2 ((List.pairwise_cons.1 h.queue.sorted).1 m hm) hlt
  · exact h.outer m hm hin

theorem Pending.tail (h : Pending g all done (n :: nodes) (s :: l) c) : Pending g all done nodes l c :=
  { h with
    queue := h.queue.tail
    outer := fun m hm => h.outer m (List.mem_cons_of_mem _ hm) }

/-! ## Events on subprocesses -/

theorem grows_addGate (hc : Sturdy c) (hlive : ∀ u ∈ s.enter :: s.exits, c.net.hasTransition u)
    (ht : c.net.hasTransition t) (event : Node) : Grows True (addGate s event t) c := by
  refine Grows.after (grows_addPlace hc _) fun gate d hadd hd => ?_
  have hgate := live_of_addPlace hc hadd
  refine Grows.after (grows_addArc hd.sturdy hgate (hd.transition _ (hlive _ List.mem_cons_self)))
    fun _ d' _ hd' => ?_
  refine Grows.after (grows_addArcs hd'.sturdy fun u hu => ⟨hd'.place _ hgate, ?_⟩) fun _ d'' _ hd'' => ?_
  · exact hd'.transition u (hd.transition u (hlive u (List.mem_cons_of_mem _ hu)))
  · exact grows_addArc hd''.sturdy (hd''.place _ (hd'.place _ hgate))
      (hd''.transition t (hd'.transition t (hd.transition t ht)))

theorem raisedIn_iff (hkind : (g.node m).kind = .boundaryEvent trigger activity) :
    g.RaisedIn id m ↔ (trigger.isInternal → raisingEnds g id (g.node m) trigger ≠ []) := by
  constructor
  · exact fun h => h trigger activity hkind
  · intro h trigger' activity' hkind'
    cases hkind.symm.trans hkind'
    exact h

/-- `addSubprocessBoundary` succeeds if the event has a flow behind it, and an end that raises it if it
is not a message. -/
theorem checks_addSubprocessBoundary (hg : g.Normal) (hlocal : g.Local)
    (hplain : ∀ n, index n < g.nodes.size → (g.node n).kind.isPlain → g.Served n)
    (hc : Pending g all done (n :: nodes) (s :: l) c) (hid : s.id ∈ done)
    (hm : m ∈ g.boundaryEventsOf s.id) {found : Interruptions} {events : NodeId → Prop}
    (hh : Handled g [s] s events found.raised c) (hmessages : ∀ t ∈ found.messages, c.net.hasTransition t) :
    Checks (fun found' d => Pending g all done (n :: nodes) (s :: l) d ∧
        (∃ events', Handled g [s] s events' found'.raised d) ∧ ∀ t ∈ found'.messages, d.net.hasTransition t)
      ((g.node m).outgoing ≠ [] ∧ g.RaisedIn s.id m) (addSubprocessBoundary g showEvents s found m) c := by
  obtain ⟨hw, -⟩ := List.forall₂_cons.1 hc.queue.wired
  obtain ⟨gates, steps, place, hl⟩ := hc.booked
  obtain ⟨-, trigger, hkind⟩ := mem_boundaryEventsOf.1 hm
  have hlive := hw.joined.live_all
  have houter : (g.node m).process ∉ done := by
    rw [hlocal.event m n trigger (hw.joined.id ▸ hkind) (isActivity_of_isSubprocess hw.kind)]
    exact hc.outer n List.mem_cons_self
  -- What stays known of the construction follows from the run, once the net stays one that can be edited.
  suffices hchecks : Checks (fun found' d => Sturdy d ∧ ∀ t ∈ found'.messages, d.net.hasTransition t)
      ((g.node m).outgoing ≠ [] ∧ g.RaisedIn s.id m) (addSubprocessBoundary g showEvents s found m) c by
    refine hchecks.of fun found' d hrun _ hd => ?_
    obtain ⟨hd, hlived⟩ := hd
    obtain ⟨st, hh'⟩ := stitches_addSubprocessBoundary (P := { sub := (· = s) }) hg hc.sound rfl
      (fun r hr => List.mem_singleton.2 hr) (fun r hr => List.mem_singleton.1 hr ▸ hlive) hm hh hrun
    obtain ⟨place', hl'⟩ := hl.withEvent hg hc.sound hid hw.joined.parent hm hrun
    exact ⟨hc.stitched st hd ⟨_, _, place', hl'⟩, ⟨_, hh'⟩, hlived⟩
  simp only [addSubprocessBoundary, hkind]
  refine Checks.bind (grows_outPlace hg.linked hc.sturdy hc.provided m) fun q d hout _ _ => ?_
  obtain ⟨rfl, f, hf, rfl⟩ := outPlace_gives hg.linked hout
  have hq := hc.hasPlace hg.linked hf (not_raising_of_local hlocal (hc.sound.bound f q hf) houter)
  refine Checks.after (grows_addTransition hc.sturdy _) fun t d₁ htransition hd₁ => ?_
  have ht := live_of_addTransition hc.sturdy htransition
  refine Checks.after (grows_addArc hd₁.sturdy (hd₁.place q hq) ht) fun _ d₂ harc hd₂ => ?_
  obtain ⟨hs₂, hl₂, -⟩ := hl.withTransition hg hc.sound hw.joined.parent hm rfl rfl rfl hout htransition harc
  have ht₂ := hd₂.transition t ht
  have hold : ∀ u, d.net.hasTransition u → d₂.net.hasTransition u := fun u hu =>
    hd₂.transition u (hd₁.transition u hu)
  rw [raisedIn_iff hkind]
  split
  · rename_i hinternal
    refine Checks.iff ?_ (forall_prop_of_true hinternal).symm
    refine Checks.before (checks_mergeRaisingEnds hg hs₂ hd₂.sturdy
      (hc.provided.kept (hd₂.flowPlaces.trans hd₁.flowPlaces)) hl₂ hkind hinternal fun e he => ?_)
      fun p d₃ _ _ hmerged => ?_
    · obtain ⟨hlt, -, hend, -⟩ := mem_raisingEnds.1 he
      exact (hplain e hlt (by rw [hend]; rfl)).incoming (by rw [hend]; rfl)
    · obtain ⟨hd₃, hp, hkept⟩ := hmerged
      refine Checks.after (grows_addArc hd₃ hp (hkept t ht₂)) fun _ d₄ _ hd₄ => checks_pure ⟨hd₄.sturdy, ?_⟩
      exact fun u hu => hd₄.transition u (hkept u (hold u (hmessages u hu)))
  · rename_i hinternal
    refine Checks.iff ?_ (iff_true_intro fun h => absurd h hinternal).symm
    refine Checks.after (grows_addGate hd₂.sturdy (fun u hu => hold u (hlive u hu)) ht₂ _)
      fun _ d₃ _ hd₃ => checks_pure ⟨hd₃.sturdy, fun u hu => ?_⟩
    rcases List.mem_append.1 hu with hu | hu
    · exact hd₃.transition u (hold u (hmessages u hu))
    · exact List.mem_singleton.1 hu ▸ hd₃.transition t ht₂

/-- `addSubprocessBoundaries` succeeds if all events on the subprocess have what they need. -/
theorem checks_addSubprocessBoundaries (hg : g.Normal) (hlocal : g.Local)
    (hplain : ∀ n, index n < g.nodes.size → (g.node n).kind.isPlain → g.Served n)
    (hc : Pending g all done (n :: nodes) (s :: l) c) (hid : s.id ∈ done) :
    Checks (fun _ => Pending g all done (n :: nodes) (s :: l))
      (∀ m ∈ g.boundaryEventsOf s.id, (g.node m).outgoing ≠ [] ∧ g.RaisedIn s.id m)
      (addSubprocessBoundaries g showEvents s) c := by
  obtain ⟨hw, -⟩ := List.forall₂_cons.1 hc.queue.wired
  obtain ⟨gates, steps, place, hl⟩ := hc.booked
  have hlive := hw.joined.live_all
  suffices hchecks : Checks (fun _ => Sturdy)
      (∀ m ∈ g.boundaryEventsOf s.id, (g.node m).outgoing ≠ [] ∧ g.RaisedIn s.id m)
      (addSubprocessBoundaries g showEvents s) c by
    refine hchecks.of fun _ d hrun _ hd => ?_
    obtain ⟨st, -⟩ := stitches_addSubprocessBoundaries (l := [s]) (P := { sub := (· = s) }) hg hc.sound rfl
      (fun r hr => List.mem_singleton.2 hr) (fun r hr => List.mem_singleton.1 hr ▸ hlive) hrun
    obtain ⟨place', hl'⟩ := hl.withSubprocessBoundaries hg hc.sound hid hw.joined.id hw.joined.parent
      hlive hrun
    exact hc.stitched st hd ⟨_, _, place', hl'⟩
  rw [addSubprocessBoundaries_eq]
  refine Checks.before (Checks.foldlM (J := fun rest found d => rest ⊆ g.boundaryEventsOf s.id ∧
      Pending g all done (n :: nodes) (s :: l) d ∧
        (∃ events, Handled g [s] s events found.raised d) ∧ ∀ t ∈ found.messages, d.net.hasTransition t)
    (fun m rest found d ⟨hsub, hd, ⟨_, hh⟩, hmessages⟩ => ?_)
    ⟨List.Subset.refl _, hc, ⟨_, .nothing⟩, fun _ ht => absurd ht List.not_mem_nil⟩)
    fun found d _ _ ⟨_, hd, _, hmessages⟩ => checks_get ?_
  · obtain ⟨hm, hrest⟩ := List.cons_subset.1 hsub
    exact (checks_addSubprocessBoundary hg hlocal hplain hd hid hm hh hmessages).of
      fun _ _ _ _ h => ⟨hrest, h⟩
  · have hscope : ∀ q ∈ scopePlaces g d.net s.id, d.net.hasPlace q := fun q => live_of_mem_scopePlaces
    refine Checks.after (grows_forM hd.sturdy fun p _ d' hd' => grows_clearOnEntry hd'.sturdy
      fun q hq => hd'.place q (hscope q (List.mem_filter.1 hq).1)) fun _ d' _ hd' => ?_
    refine (grows_forM hd'.sturdy fun t ht d'' hd'' => grows_addResets hd''.sturdy (fun q hq => ?_) ?_).of
      fun _ _ _ _ h => h.sturdy
    · exact hd''.place q (hd'.place q (hscope q hq))
    · exact hd''.transition t (hd'.transition t (hmessages t ht))

/-! ## Terminate ends -/

/-- The places of terminate ends, which are all still there. -/
theorem grows_mapM_terminations (hg : g.Linked) (hc : Sturdy c) (hflows : Provided g c)
    (hplain : ∀ n, index n < g.nodes.size → (g.node n).kind.isPlain → g.Served n) (process : String) :
    Grows True ((g.terminationsOf process).mapM (inPlace g)) c :=
  grows_mapM_inPlace hg hc hflows fun m hm => by
    obtain ⟨hlt, -, hkind⟩ := mem_terminationsOf.1 hm
    exact (hplain m hlt (by rw [hkind]; rfl)).incoming (by rw [hkind]; rfl)

theorem grows_terminateSubprocess (hg : g.Normal) (hlocal : g.Local)
    (hplain : ∀ n, index n < g.nodes.size → (g.node n).kind.isPlain → g.Served n)
    (hc : Pending g all done (n :: nodes) (s :: l) c) : Grows True (terminateSubprocess g s) c := by
  obtain ⟨hw, -⟩ := List.forall₂_cons.1 hc.queue.wired
  have hbehind : c.net.hasPlace s.outPlace := by
    obtain ⟨f, hf, hsource⟩ := hw.behind
    refine hc.hasPlace hg.linked hf (not_raising_of_local hlocal (hc.sound.bound f _ hf) ?_)
    rw [hsource]
    exact hc.outer n List.mem_cons_self
  refine Grows.after (grows_mapM_terminations hg.linked hc.sturdy hc.provided hplain s.id)
    fun own d hown _ => ?_
  obtain ⟨rfl, hmem, -⟩ := terminations_eq_ok hg hc.sound hown
  refine grows_forM hc.sturdy fun e he d' hd' => checks_get ?_
  obtain ⟨f, hf, hterm⟩ := (hmem e.2).1 (List.of_mem_zip he).2
  have hp := hc.hasPlace hg.linked hf fun id _ => hterm.not_raising id
  refine Grows.after (grows_clearOnEntry hd'.sturdy fun q hq => ?_) fun _ d'' _ hd'' => ?_
  · exact live_of_mem_scopePlaces (List.mem_filter.1 hq).1
  · exact grows_addStep_unit hd''.sturdy (List.forall_mem_singleton.2 (hd''.place _ (hd'.place _ hp)))
      (List.forall_mem_singleton.2 (hd''.place _ (hd'.place _ hbehind)))

/-! ## One subprocess after the other -/

theorem Sturdy.absorbed (s : JoinedSubprocess) (hc : Sturdy c) : Sturdy (absorbed s c) := by
  refine ⟨hc.consistent.mapNodes (fun x => ?_) fun x => ?_, ?_⟩
  · split <;> rfl
  · split <;> rfl
  · obtain ⟨hplaces, htransitions⟩ := hc.fits
    exact ⟨hplaces.trans (Arena.size_mapEntries _ _).symm, htransitions.trans (Arena.size_mapEntries _ _).symm⟩

/-- One turn of `finish` succeeds if the events on its subprocess have what they need. -/
theorem checks_finish (hg : g.Normal) (hlocal : g.Local) (hlayered : g.Layered)
    (hplain : ∀ n, index n < g.nodes.size → (g.node n).kind.isPlain → g.Served n)
    (hc : Pending g all done (n :: nodes) (s :: l) c) :
    Checks (fun _ => Pending g all (s.id :: done) nodes l)
      (∀ m ∈ g.boundaryEventsOf s.id, (g.node m).outgoing ≠ [] ∧ g.RaisedIn s.id m)
      (finish g showEvents s) c := by
  obtain ⟨gates, steps, place, hl⟩ := hc.booked
  have hopened := hc.opened hlayered
  suffices hchecks : Checks (fun _ => Sturdy)
      (∀ m ∈ g.boundaryEventsOf s.id, (g.node m).outgoing ≠ [] ∧ g.RaisedIn s.id m)
      (finish g showEvents s) c by
    refine hchecks.of fun _ d hrun _ hd => ?_
    obtain ⟨st, -⟩ := stitches_of_turn hg hc.sound hc.queue hrun
    obtain ⟨place', hl'⟩ := hl.withTurn hg hc.sound hc.queue hrun
    exact (hopened.stitched st hd ⟨_, _, place', hl'⟩).tail
  refine Checks.before (checks_addSubprocessBoundaries hg hlocal hplain hopened List.mem_cons_self)
    fun _ d _ _ hd => ?_
  refine Checks.after (grows_terminateSubprocess hg hlocal hplain hd) fun _ d' _ hd' => ?_
  exact checks_modify (hd'.sturdy.absorbed s)

/-- All turns of `finish`. -/
theorem checks_finishes (hg : g.Normal) (hlocal : g.Local) (hlayered : g.Layered)
    (hplain : ∀ n, index n < g.nodes.size → (g.node n).kind.isPlain → g.Served n)
    (hc : Pending g all done nodes l c) :
    Checks (fun _ d => ∃ done nodes, Pending g all done nodes [] d)
      (∀ s ∈ l, ∀ m ∈ g.boundaryEventsOf s.id, (g.node m).outgoing ≠ [] ∧ g.RaisedIn s.id m)
      (l.forM (finish g showEvents)) c := by
  refine Checks.forM (I := fun rest d => ∃ done nodes, Pending g all done nodes rest d)
    (fun s rest d ⟨done, nodes, hd⟩ => ?_) ⟨done, nodes, hc⟩
  obtain ⟨n, nodes, -, -, rfl⟩ := List.forall₂_cons_right_iff.1 hd.queue.wired
  exact (checks_finish hg hlocal hlayered hplain hd).of fun _ d' _ _ hd' => ⟨_, nodes, hd'⟩

/-! ## The root process -/

/-- `terminateRoot` succeeds if the root process has a sink where it has a terminate end. -/
theorem checks_terminateRoot (hg : g.Normal)
    (hplain : ∀ n, index n < g.nodes.size → (g.node n).kind.isPlain → g.Served n)
    (hc : Pending g all done nodes l c)
    (hsink : ∀ f p, c.flowPlaces.lookup f = some p → entersRootEnd g (g.flow f) → c.rootSink = some p) :
    Checks (fun _ _ => True) g.Concluded (terminateRoot g) c := by
  refine Checks.after (grows_mapM_terminations hg.linked hc.sturdy hc.provided hplain g.processId)
    fun own d hown _ => ?_
  obtain ⟨rfl, hall⟩ := mapM_inPlace_eq_ok hown
  obtain ⟨-, hmem, hzip⟩ := terminations_eq_ok hg hc.sound hown
  refine (Grows.forM (P := fun _ => ∃ f, index f < g.flows.size ∧ entersRootEnd g (g.flow f)) hc.sturdy
    fun e he d' hd' => checks_get ?_).mono (fun _ _ _ => trivial) ⟨fun h hne => ?_, fun h e he => ?_⟩
  · cases hd : d'.rootSink with
    | none =>
      refine checks_lacks fun ⟨f, hlt, henters⟩ => ?_
      obtain ⟨p, hp⟩ := hc.provided f hlt
      rw [hd'.rootSink, hsink f p hp henters] at hd
      cases hd
    | some sink =>
      obtain ⟨f, hf, henters⟩ := hc.sound.sink sink (hd'.rootSink ▸ hd)
      obtain ⟨k, hk, hterm⟩ := (hmem e.2).1 (List.of_mem_zip he).2
      have hlive := hc.hasPlace hg.linked hf fun id _ hraising =>
        hraising.ne_normal (kind_of_entersRootEnd henters).1
      have hp := hc.hasPlace hg.linked hk fun id _ => hterm.not_raising id
      refine Grows.iff ?_ (iff_true_intro ⟨f, hc.sound.bound f sink hf, henters⟩).symm
      refine checks_get (Grows.after (grows_clearOnEntry hd'.sturdy fun q hq => ?_) fun _ d'' _ hd'' => ?_)
      · exact live_of_mem_scopePlaces (List.mem_filter.1 hq).1
      · exact grows_addStep_unit hd''.sturdy (List.forall_mem_singleton.2 (hd''.place _ (hd'.place _ hp)))
          (List.forall_mem_singleton.2 (hd''.place _ (hd'.place _ hlive)))
  · obtain ⟨m, hm⟩ := ne_nil_iff_exists_mem.1 hne
    obtain ⟨p, hp, -⟩ := exists_of_forall₂ hall hm
    obtain ⟨k, hk⟩ := hzip p hp
    exact h (k, p) hk
  · exact h (List.ne_nil_of_mem (List.of_mem_zip he).1)

end Construction

end ProcessNet
