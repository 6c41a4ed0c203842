/-
The ledger while subprocesses are finished. Ends that raise one event are merged: the flows into a place
that goes have the one that stays from then on, which no step notices, since none takes from a place that
goes. The transition of the event is booked without what it takes, which is entered when the ends are
merged.
-/
import ProcessNet.Proofs.Conversion.Entries

namespace ProcessNet

namespace Construction

open Identifier Net ProcessGraph

variable {g : ProcessGraph} {c c' : Construction} {f k : FlowId} {p q : PlaceId} {t : TransitionId}
  {n m : NodeId} {s : JoinedSubprocess} {showEvents : Bool} {id id' : String} {event event' : Node}
  {done : List String} {gates : Nat} {steps : List Step} {place : FlowId → PlaceId}

/-! ## Ends that raise one event -/

theorem mem_endsRaising : n ∈ g.endsRaising id event ↔ ∃ trigger activity,
    event.kind = .boundaryEvent trigger activity ∧ trigger.isInternal ∧
      n ∈ raisingEnds g id event trigger := by
  unfold endsRaising
  cases hkind : event.kind with
  | boundaryEvent trigger activity =>
    dsimp only
    split
    · rename_i hinternal
      constructor
      · exact fun h => ⟨trigger, activity, rfl, hinternal, h⟩
      · rintro ⟨_, _, hk, _, h⟩
        cases hk
        exact h
    · rename_i hinternal
      constructor
      · exact fun h => absurd h List.not_mem_nil
      · rintro ⟨_, _, hk, hi, _⟩
        cases hk
        exact absurd hi hinternal
  | task | subprocess | startEvent | endEvent | catchEvent | throwEvent | gateway =>
    constructor
    · exact fun h => absurd h List.not_mem_nil
    · rintro ⟨_, _, hk, _⟩
      cases hk

theorem mem_raisingFlows (hg : g.Linked) : f ∈ g.raisingFlows id event ↔
    index f < g.flows.size ∧ (g.flow f).target ∈ g.endsRaising id event := by
  rw [raisingFlows, List.mem_flatMap]
  constructor
  · rintro ⟨e, he, hf⟩
    obtain ⟨hlt, rfl⟩ := (hg.mem_incoming e f).1 hf
    exact ⟨hlt, he⟩
  · exact fun ⟨hlt, he⟩ => ⟨_, he, (hg.mem_incoming _ f).2 ⟨hlt, rfl⟩⟩

theorem raising_of_mem (hg : g.Linked) (hf : f ∈ g.raisingFlows id event) : Raising g f id := by
  obtain ⟨_, _, _, hinternal, he⟩ := mem_endsRaising.1 ((mem_raisingFlows hg).1 hf).2
  exact raising_of_mem_raisingEnds hinternal he

theorem sameEnd_of_mem (hg : g.Linked) (hf : f ∈ g.raisingFlows id event)
    (hk : k ∈ g.raisingFlows id event) : SameEnd g f k := by
  obtain ⟨trigger, _, htrigger, _, hf⟩ := mem_endsRaising.1 ((mem_raisingFlows hg).1 hf).2
  obtain ⟨trigger', _, htrigger', _, hk⟩ := mem_endsRaising.1 ((mem_raisingFlows hg).1 hk).2
  cases htrigger.symm.trans htrigger'
  exact sameEnd_of_mem_raisingEnds hf hk

/-- What enters the same as a flow into an end that raises the event raises it, too. -/
theorem SameEnd.mem_raisingFlows (hg : g.Linked) (h : SameEnd g f k) (hk : index k < g.flows.size)
    (hf : f ∈ g.raisingFlows id event) : k ∈ g.raisingFlows id event := by
  obtain ⟨trigger, activity, htrigger, hinternal, hf⟩ :=
    mem_endsRaising.1 ((Construction.mem_raisingFlows hg).1 hf).2
  exact (Construction.mem_raisingFlows hg).2 ⟨hk, mem_endsRaising.2 ⟨trigger, activity, htrigger,
    hinternal, h.mem_raisingEnds hf (hg.target k hk)⟩⟩

theorem Merged.mono {done' : List String} (h : Merged g done f k) (hsub : done ⊆ done') :
    Merged g done' f k := by
  obtain ⟨id, hid, hm⟩ := h
  exact ⟨id, hsub hid, hm⟩

theorem Merged.sameEnd (hg : g.Linked) (h : Merged g done f k) : SameEnd g f k := by
  obtain ⟨_, _, _, _, hf, hk⟩ := h
  exact sameEnd_of_mem hg hf hk

theorem Coincide.mono {done' : List String} (h : Coincide g done f k) (hsub : done ⊆ done') :
    Coincide g done' f k :=
  h.imp_right (Or.imp_right fun h => h.mono hsub)

/-- A flow that has the place of one into an end that raises the event enters such an end. -/
theorem Coincide.mem_raisingFlows (hg : g.Linked) (h : Coincide g done f k)
    (hk : index k < g.flows.size) (hf : f ∈ g.raisingFlows id event) :
    k ∈ g.raisingFlows id event := by
  rcases h with rfl | ⟨hroot, _⟩ | h
  · exact hf
  · exact absurd (kind_of_entersRootEnd hroot).1 (raising_of_mem hg hf).ne_normal
  · exact (h.sameEnd hg).mem_raisingFlows hg hk hf

/-! ## One place less -/

/-- `n'` is `n` where all that led to `duplicate` leads to `main`, and `duplicate` is gone. -/
structure Redirected (n : Net) (main duplicate : PlaceId) (n' : Net) : Prop where
  consistent : n'.Consistent
  live : n.hasPlace duplicate
  place? : ∀ p, n'.place? p = if p = duplicate then none else n.place? p
  liveTransitions : n'.liveTransitions = n.liveTransitions
  mem_arcs : ∀ a, a ∈ n'.arcs ↔ a.place ≠ duplicate ∧
    (a ∈ n.arcs ∨ ∃ t, a = .output t main ∧ Arc.output t duplicate ∈ n.arcs)

theorem mergeInto_effect {main duplicate : PlaceId} (hc : c.net.Consistent)
    (h : mergeInto main duplicate c = .ok () c') :
    ∃ n, c' = { c with net := n } ∧ Redirected c.net main duplicate n := by
  unfold mergeInto at h
  rw [get_bind] at h
  obtain ⟨_, c₁, hmerge, h₁⟩ := bind_eq_ok.1 h
  obtain ⟨x, c₂, hremove, h₂⟩ := bind_eq_ok.1 h₁
  cases h₂
  obtain ⟨n₁, rfl, hadd⟩ := addArcs_effect hc hmerge
  obtain ⟨n₂, hgone, rfl⟩ := onNet_eq_ok.1 hremove
  have hgone' := hadd.consistent.removePlace hgone
  obtain ⟨hx, _, _, _, hn₂⟩ := removePlace_eq_ok hgone
  refine ⟨n₂, rfl, hgone'.consistent, ?_, fun p => ?_, ?_, fun a => ?_⟩
  · rw [← hadd.nodes.hasPlace]
    exact hasPlace_iff.2 ⟨x, hx⟩
  · rw [hgone'.place?, hadd.nodes.place?]
  · rw [← hadd.nodes.liveTransitions, hn₂]
    rfl
  · rw [hgone'.mem_arcs, hadd.mem_arcs, and_comm, or_comm]
    refine and_congr_right fun _ => or_congr_right (exists_congr fun t => ?_)
    rw [mem_producers hc.mirrored, and_comm]

/-- Flows into the one place have the other from then on. -/
def redirect (main duplicate : PlaceId) (place : FlowId → PlaceId) (f : FlowId) : PlaceId :=
  if place f = duplicate then main else place f

theorem redirect_of_ne {main duplicate : PlaceId} (h : place f ≠ duplicate) :
    redirect main duplicate place f = place f := if_neg h

section Redirect

variable {main duplicate : PlaceId} {net : Net}

theorem Redirected.hasPlace (hr : Redirected c.net main duplicate net) (hp : p ≠ duplicate) :
    net.hasPlace p = c.net.hasPlace p := by
  rw [Net.hasPlace, Net.hasPlace, hr.place?, if_neg hp]

theorem Redirected.isGate_iff (hr : Redirected c.net main duplicate net) (hplain : ¬ IsGate c duplicate) :
    IsGate { c with net } p ↔ IsGate c p := by
  unfold IsGate
  rw [hr.place?]
  split
  · rename_i hp
    refine ⟨fun ⟨_, h, _⟩ => (by cases h), fun h => absurd h ?_⟩
    rwa [hp]
  · exact Iff.rfl

/-- Steps do not notice `mergeInto`, since none of them takes from the place that goes. -/
theorem Does.redirect {step : Step} {e : TransitionId × Transition} (h : Does c place step e)
    (hr : Redirected c.net main duplicate net) (hne : main ≠ duplicate) (hplain : ¬ IsGate c duplicate)
    (hnone : ∀ t, Arc.input duplicate t ∉ c.net.arcs) :
    Does { c with net } (redirect main duplicate place) step e := by
  obtain ⟨hlive, hname, hlabel, htakes, hgives⟩ := h
  refine ⟨?_, hname, hlabel, fun p hp => ?_, fun p hp => ?_⟩
  · rw [← mem_liveTransitions, hr.liveTransitions, mem_liveTransitions]
    exact hlive
  · rw [hr.mem_arcs]
    constructor
    · rintro ⟨hpd, ha | ⟨_, he, _⟩⟩
      · obtain ⟨f, hf, rfl⟩ := (htakes p fun hgate => hp ((hr.isGate_iff hplain).2 hgate)).1 ha
        exact ⟨f, hf, redirect_of_ne hpd⟩
      · cases he
    · rintro ⟨f, hf, hfp⟩
      have hfd : place f ≠ duplicate := fun he => hnone _ ((htakes _ hplain).2 ⟨f, hf, he⟩)
      rw [redirect_of_ne hfd] at hfp
      subst hfp
      exact ⟨hfd, .inl ((htakes _ fun hgate => hp ((hr.isGate_iff hplain).2 hgate)).2 ⟨f, hf, rfl⟩)⟩
  · have hpc : ¬ IsGate c p := fun hgate => hp ((hr.isGate_iff hplain).2 hgate)
    rw [hr.mem_arcs]
    constructor
    · rintro ⟨hpd, ha | ⟨t, he, ha⟩⟩
      · obtain ⟨f, hf, rfl⟩ := (hgives p hpc).1 ha
        exact ⟨f, hf, redirect_of_ne hpd⟩
      · cases he
        obtain ⟨f, hf, hfd⟩ := (hgives _ hplain).1 ha
        exact ⟨f, hf, if_pos hfd⟩
    · rintro ⟨f, hf, hfp⟩
      by_cases hfd : place f = duplicate
      · rw [Construction.redirect, if_pos hfd] at hfp
        subst hfp
        exact ⟨hne, .inr ⟨e.1, rfl, (hgives _ hplain).2 ⟨f, hf, hfd⟩⟩⟩
      · rw [redirect_of_ne hfd] at hfp
        subst hfp
        exact ⟨hfd, .inl ((hgives _ hpc).2 ⟨f, hf, rfl⟩)⟩

/-- The places of flows after the merger of two of them, whose flows raise the event `m`. -/
theorem Lodged.redirect (hg : g.Normal) (hs : Sound g c) (h : Lodged g done gates place c)
    (hr : Redirected c.net main duplicate net) (hid : id ∈ done) (hm : m ∈ g.boundaryEventsOf id)
    (hf : c.flowPlaces.lookup f = some main) (hfm : f ∈ g.raisingFlows id (g.node m))
    (hk : c.flowPlaces.lookup k = some duplicate) (hkm : k ∈ g.raisingFlows id (g.node m))
    (hne : main ≠ duplicate) (hlive : c.net.hasPlace main) :
    Lodged g done gates (redirect main duplicate place) { c with net } := by
  have hplain := hs.plain k duplicate hk
  have hgate := fun p => hr.isGate_iff (p := p) hplain
  have hbound := hs.bound
  have hmain : place f = main := h.found f main hf hlive
  have hduplicate : place k = duplicate := h.found k duplicate hk hr.live
  -- All flows that have one of the two places raise the event.
  have hraises : ∀ j, index j < g.flows.size → place j = main ∨ place j = duplicate →
      j ∈ g.raisingFlows id (g.node m) := by
    rintro j hj (hjp | hjp)
    · exact (h.same f j (hbound f _ hf) hj (hmain.trans hjp.symm)).mem_raisingFlows hg.linked hj hfm
    · exact (h.same k j (hbound k _ hk) hj (hduplicate.trans hjp.symm)).mem_raisingFlows hg.linked hj hkm
  refine {
    found := fun j p hj hp => ?found
    live := fun j hj => ?live
    flow := fun p x hx hrole => ?flow
    same := fun i j hi hj he => ?same
    lost := fun j p hj hdead => ?lost
    gates := ?gates }
  case found =>
    have hpd : p ≠ duplicate := by
      rintro rfl
      rw [Net.hasPlace, hr.place?, if_pos rfl] at hp
      cases hp
    rw [hr.hasPlace hpd] at hp
    have hjp := h.found j p hj hp
    rw [redirect_of_ne (hjp ▸ hpd), hjp]
  case live =>
    obtain ⟨hjlive, hjgate⟩ := h.live j hj
    unfold Construction.redirect
    split
    · exact ⟨by rwa [hr.hasPlace hne], fun hp => hs.plain f main hf ((hgate _).1 hp)⟩
    · rename_i hjd
      exact ⟨by rwa [hr.hasPlace hjd], fun hp => hjgate ((hgate _).1 hp)⟩
  case flow =>
    rw [hr.place?] at hx
    split at hx
    · cases hx
    · exact h.flow p x hx hrole
  case same =>
    by_cases hone : place i = place j
    · exact h.same i j hi hj hone
    · have hmember : ∀ a b, index a < g.flows.size → place a ≠ place b →
          Construction.redirect main duplicate place a = Construction.redirect main duplicate place b →
          a ∈ g.raisingFlows id (g.node m) := by
        intro a b ha hab he
        refine hraises a ha ?_
        unfold Construction.redirect at he
        split at he
        · exact .inr ‹_›
        · split at he
          · exact .inl he
          · exact absurd he hab
      exact .inr (.inr ⟨id, hid, m, hm, hmember i j hi hone he, hmember j i hj (Ne.symm hone) he.symm⟩)
  case lost =>
    by_cases hpd : p = duplicate
    · subst hpd
      refine ⟨f, id, hid, m, hm, ?_, hfm⟩
      rwa [hs.eq_of_kind hk hj (raising_of_mem hg.linked hkm).ne_normal]
    · rw [hr.hasPlace hpd] at hdead
      exact h.lost j p hj hdead
  case gates =>
    simpa only [hgate] using h.gates

/-- The ledger after one end was put into another by `mergeInto`. -/
theorem Ledger.mergePlace (hg : g.Normal) (hs : Sound g c) (hl : Ledger g done gates steps place c)
    (hid : id ∈ done) (hm : m ∈ g.boundaryEventsOf id)
    (hf : c.flowPlaces.lookup f = some main) (hfm : f ∈ g.raisingFlows id (g.node m))
    (hk : c.flowPlaces.lookup k = some duplicate) (hkm : k ∈ g.raisingFlows id (g.node m))
    (hne : main ≠ duplicate) (hlive : c.net.hasPlace main)
    (h : mergeInto main duplicate c = .ok () c') :
    c'.net.liveTransitions = c.net.liveTransitions ∧
      ∃ place', Ledger g done gates steps place' c' := by
  obtain ⟨net, rfl, hr⟩ := mergeInto_effect hl.consistent h
  have hsame := sameEnd_of_mem hg.linked hkm hfm
  have hraising := raising_of_mem hg.linked hkm
  -- The place that goes has no consumers, since the other one is still there.
  have hnone : ∀ t, Arc.input duplicate t ∉ c.net.arcs := fun t ha =>
    hne (hs.sole k duplicate t hk (hraising.1.symm ▸ hraising) ha f main hf hsame hlive)
  refine ⟨hr.liveTransitions, redirect main duplicate place, hr.consistent,
    hl.lodged.redirect hg hs hr hid hm hf hfm hk hkm hne hlive, ?_⟩
  rw [hr.liveTransitions]
  exact hl.listed.imp fun _ _ hd => hd.redirect hr hne (hs.plain k _ hk) hnone

end Redirect

/-- The ledger after all the other ends were put into the first one by `mergeInto`. -/
theorem Ledger.mergePlaces (hg : g.Normal) (hs : Sound g c) (hl : Ledger g done gates steps place c)
    {main : PlaceId} {duplicates : List PlaceId} (hid : s.id ∈ done)
    (hm : m ∈ g.boundaryEventsOf s.id) (hf : c.flowPlaces.lookup f = some main)
    (hfm : f ∈ g.raisingFlows s.id (g.node m))
    (hall : ∀ q ∈ duplicates, main ≠ q ∧
      ∃ k, c.flowPlaces.lookup k = some q ∧ k ∈ g.raisingFlows s.id (g.node m))
    (hlive : c.net.hasPlace main) (h : duplicates.forM (mergeInto main) c = .ok () c') :
    c'.net.liveTransitions = c.net.liveTransitions ∧
      ∃ place', Ledger g done gates steps place' c' := by
  induction duplicates generalizing c place with
  | nil =>
    cases h
    exact ⟨rfl, place, hl⟩
  | cons q duplicates ih =>
    rw [List.forM] at h
    obtain ⟨_, c₁, hq, hrest⟩ := bind_eq_ok.1 h
    obtain ⟨hne, k, hk, hkm⟩ := hall q List.mem_cons_self
    have hfr := raising_of_mem hg.linked hfm
    obtain ⟨st, hlive₁, _⟩ := stitches_mergeInto (P := { sub := (· = s) }) hs rfl hf hfr hk
      (raising_of_mem hg.linked hkm) (sameEnd_of_mem hg.linked hkm hfm) hne hlive hq
    obtain ⟨hsame, _, hl₁⟩ := hl.mergePlace hg hs hid hm hf hfm hk hkm hne hlive hq
    have hflows := st.flowPlaces
    obtain ⟨hsame', hledger⟩ := ih (st.sound hs) hl₁ (by rwa [hflows])
      (fun r hr => hflows ▸ hall r (List.mem_cons_of_mem _ hr)) hlive₁ hrest
    exact ⟨hsame'.trans hsame, hledger⟩

/-- After `mergeRaisingEnds` all flows into ends that raise an event have one place. -/
theorem Ledger.mergeEnds (hg : g.Normal) (hs : Sound g c)
    (hl : Ledger g done gates steps place c) {trigger : BoundaryTrigger} {activity : String}
    (hid : s.id ∈ done) (hm : m ∈ g.boundaryEventsOf s.id)
    (hkind : (g.node m).kind = .boundaryEvent trigger activity) (hinternal : trigger.isInternal)
    (h : mergeRaisingEnds g s (g.node m) trigger c = .ok p c') :
    c'.net.liveTransitions = c.net.liveTransitions ∧ (∃ f, f ∈ g.raisingFlows s.id (g.node m)) ∧
      ∃ place', Ledger g done gates steps place' c' ∧
        ∀ f ∈ g.raisingFlows s.id (g.node m), place' f = p := by
  obtain ⟨st, _, f, hf, hraising, hsole⟩ :=
    stitches_mergeRaisingEnds hg hs (P := { sub := (· = s) }) rfl hinternal h
  have hs' := st.sound hs
  obtain ⟨ps, c₁, hcollect, h₁⟩ := bind_eq_ok.1 h
  obtain ⟨rfl, hnodup, hmem, -, -⟩ := collectEnds_eq_ok hcollect
  -- Each place that is collected is that of a flow into one of the ends.
  have hflow : ∀ q ∈ ps, c₁.net.hasPlace q ∧ ∃ k, c₁.flowPlaces.lookup k = some q ∧
      k ∈ g.raisingFlows s.id (g.node m) := by
    intro q hq
    rcases hmem q hq with hq | ⟨e, he, hrun, hlive⟩
    · cases hq
    · obtain ⟨-, k, hk, rfl⟩ := inPlace_takes hg.linked hrun
      exact ⟨hlive, k, hk, (mem_raisingFlows hg.linked).2
        ⟨hs.bound k q hk, mem_endsRaising.2 ⟨trigger, activity, hkind, hinternal, he⟩⟩⟩
  cases ps with
  | nil => cases h₁
  | cons main duplicates =>
    obtain ⟨_, c₂, hmerge, h₂⟩ := bind_eq_ok.1 h₁
    cases h₂
    have hdup := List.nodup_cons.1 (hnodup List.nodup_nil)
    obtain ⟨hlive, k, hk, hkm⟩ := hflow p List.mem_cons_self
    obtain ⟨hsame, place', hl'⟩ := hl.mergePlaces hg hs hid hm hk hkm (fun q hq =>
      ⟨fun he => hdup.1 (he ▸ hq), (hflow q (List.mem_cons_of_mem _ hq)).2⟩) hlive hmerge
    obtain rfl : k = f := hs.eq_of_kind hf hk hraising.ne_normal
    refine ⟨hsame, ⟨k, hkm⟩, place', hl', fun j hj => ?_⟩
    -- The place of the flow is live, so it is the only one that was left.
    have hjlt := ((mem_raisingFlows hg.linked).1 hj).1
    obtain ⟨i, hi⟩ := hl'.lodged.exists_lookup hjlt
    have hlt := hs'.bound i _ hi
    have hlive' := (hl'.lodged.live j hjlt).1
    have hji := hl'.lodged.same j i hjlt hlt (hl'.lodged.found i _ hi hlive').symm
    have him := hji.mem_raisingFlows hg.linked hlt hj
    exact hsole i _ (st.flowPlaces ▸ hi) (sameEnd_of_mem hg.linked hkm him) hlive'

/-! ## What the transition of an event takes -/

/-- The last step is told what it takes. -/
theorem Ledger.drawInput {s : Step} {fs : List FlowId} {x : Transition}
    {l : List (TransitionId × Transition)} (hl : Ledger g done gates (steps ++ [s]) place c)
    (hlast : c.net.liveTransitions = l ++ [(t, x)]) (hnil : s.takes = [])
    (hfs : ∃ f, f ∈ fs) (hplace : ∀ f ∈ fs, place f = p) (h : addArc (.input p t) c = .ok () c') :
    Ledger g done gates (steps ++ [{ s with takes := fs }]) place c' := by
  obtain ⟨net, rfl, hadd⟩ := addArc_effect hl.consistent h
  have hgate : ∀ p, IsGate { c with net } p ↔ IsGate c p := fun _ =>
    isGate_iff_of_place? hadd.nodes.place?
  have hlisted := hl.listed
  rw [hlast] at hlisted
  obtain ⟨hold, hdoes⟩ := forall₂_concat.1 hlisted
  have hnodup := c.net.nodup_transitionIds
  rw [transitionIds, hlast, List.map_append, List.nodup_append] at hnodup
  refine ⟨hadd.consistent, hl.lodged.kept hadd.nodes.place? rfl, ?_⟩
  rw [hadd.nodes.liveTransitions, hlast]
  refine forall₂_concat.2 ⟨(forall₂_mem_left hold.flip).flip.imp fun r e he => ?_, ?_⟩
  · obtain ⟨he, hr⟩ := he
    have hne : e.1 ≠ t := hnodup.2.2 e.1 (List.mem_map_of_mem he) t (by simp)
    refine hr.kept ((hadd.nodes.transition? e.1).trans hr.live) rfl rfl (fun p => (hgate p).2)
      fun a ha _ _ => ?_
    rw [hadd.mem_arcs]
    refine or_iff_right ?_
    rintro rfl
    exact hne ha.symm
  · refine ⟨(hadd.nodes.transition? t).trans hdoes.live, hdoes.name, hdoes.label, fun q hq => ?_,
      fun q hq => ?_⟩
    · rw [hadd.mem_arcs, hdoes.takes q fun hp => hq ((hgate q).2 hp), hnil]
      constructor
      · rintro (he | ⟨_, hf, _⟩)
        · cases he
          obtain ⟨f, hf⟩ := hfs
          exact ⟨f, hf, hplace f hf⟩
        · exact absurd hf List.not_mem_nil
      · rintro ⟨f, hf, rfl⟩
        exact .inl (by rw [hplace f hf])
    · rw [hadd.mem_arcs, hdoes.gives q fun hp => hq ((hgate q).2 hp)]
      exact or_iff_right fun he => by cases he

/-- `addArc` at a gate changes nothing in the ledger. -/
theorem books_addGateArc {a : Arc} (hgate : IsGate c a.place) (h : addArc a c = .ok () c') :
    Books g [] c c' := by
  intro done gates steps place hl
  obtain ⟨net, rfl, hadd⟩ := addArc_effect hl.consistent h
  have hsame : Books g [] c { c with net } := by
    refine books_of_same (fun _ => hadd.consistent) rfl rfl hadd.nodes.place?
      hadd.nodes.liveTransitions fun b _ hb => ?_
    rw [hadd.mem_arcs]
    refine or_iff_right ?_
    rintro rfl
    exact hb hgate
  exact hsame _ _ _ _ hl

/-- A new gate. -/
theorem Ledger.withGatePlace (hs : Sound g c) (hl : Ledger g done gates steps place c) {x : Place}
    (hrole : x.role = .boundaryGate) (h : addPlace x c = .ok p c') :
    IsGate c' p ∧ c'.flowPlaces = c.flowPlaces ∧ Ledger g done (gates + 1) steps place c' := by
  obtain ⟨net, rfl, hp, hadd⟩ := addPlace_effect hl.consistent h
  have hfresh : ∀ {q}, c.net.hasPlace q → q ≠ p := fun hq => ne_of_hasPlace hq hadd.fresh
  have hlookup : ∀ {f q}, c.flowPlaces.lookup f = some q → q ≠ p := by
    rintro f q hf rfl
    exact Arena.ne_next_of_lt (hs.valid.flows f q hf) hp
  have hother : ∀ {q}, q ≠ p → net.place? q = c.net.place? q := fun hq => by rw [hadd.place?, if_neg hq]
  have hhas : ∀ {q}, q ≠ p → net.hasPlace q = c.net.hasPlace q := fun hq => by
    rw [Net.hasPlace, Net.hasPlace, hother hq]
  -- the new place is a gate by its role, so it is nobody else's place in the ledger
  have hgate : ∀ q, IsGate { c with net } q ↔ q = p ∨ IsGate c q := by
    intro q
    unfold IsGate
    rw [hadd.place?]
    split
    · rename_i hq
      exact ⟨fun _ => .inl hq, fun _ => ⟨x, rfl, hrole⟩⟩
    · rename_i hq
      exact (or_iff_right hq).symm
  obtain ⟨hfound, hlive, hflow, hsame, hlost, ps, hnodup, hlen, hps⟩ := hl.lodged
  refine ⟨(hgate p).2 (.inl rfl), rfl, hadd.consistent,
    ⟨fun f q hf hq => ?_, fun f hf => ?_, fun q y hy hy' => ?_, hsame, fun f q hf hq => ?_,
      p :: ps, List.nodup_cons.2 ⟨fun hp => ?_, hnodup⟩, by rw [List.length_cons, hlen], fun q => ?_⟩, ?_⟩
  · exact hfound f q hf (by rwa [hhas (hlookup hf)] at hq)
  · obtain ⟨hf₁, hf₂⟩ := hlive f hf
    refine ⟨by rwa [hhas (hfresh hf₁)], fun hg => ?_⟩
    rcases (hgate _).1 hg with he | hg
    · exact hfresh hf₁ he
    · exact hf₂ hg
  · rw [hadd.place?] at hy
    split at hy
    · cases hy
      exact absurd hrole hy'
    · exact hflow q y hy hy'
  · exact hlost f q hf (by rwa [hhas (hlookup hf)] at hq)
  · exact hfresh ((hps p).1 hp).live rfl
  · rw [List.mem_cons, hps, hgate]
  · have htransitions : net.liveTransitions = c.net.liveTransitions := by
      obtain ⟨n', hn', he⟩ := onNet_eq_ok.1 h
      obtain ⟨_, _, rfl⟩ := addPlace_eq_ok hn'
      cases he
      rfl
    rw [htransitions]
    exact hl.listed.imp fun _ e he => he.kept ((hadd.transition? e.1).trans he.live) rfl rfl
      (fun q hq => (hgate q).2 (.inr hq)) fun _ _ _ _ => by rw [hadd.arcs]

/-- The gate that `addGate` makes for a message is no place of a flow. -/
theorem Ledger.withGate (hs : Sound g c) (hl : Ledger g done gates steps place c)
    (h : addGate s event t c = .ok () c') : Ledger g done (gates + 1) steps place c' := by
  obtain ⟨p, c₁, hplace, h₁⟩ := bind_eq_ok.1 h
  obtain ⟨_, c₂, henter, h₂⟩ := bind_eq_ok.1 h₁
  obtain ⟨_, c₃, hexits, hown⟩ := bind_eq_ok.1 h₂
  obtain ⟨hgate, -, hl₁⟩ := hl.withGatePlace hs rfl hplace
  -- No arc that is added changes the nodes, so the gate stays one.
  have hkeep : ∀ {a : Arc} {d d' : Construction}, d.net.Consistent → IsGate d p →
      addArc a d = .ok () d' → IsGate d' p := by
    intro a d d' hd hp hrun
    obtain ⟨_, rfl, hadd⟩ := addArc_effect hd hrun
    exact (isGate_iff_of_place? hadd.nodes.place?).2 hp
  obtain ⟨hl₂, -⟩ := books_addGateArc hgate henter _ _ _ _ hl₁
  have hgate₂ := hkeep hl₁.consistent hgate henter
  have hloop : IsGate c₃ p ∧ Ledger g done (gates + 1) steps place c₃ := by
    rw [List.append_nil] at hl₂
    refine rel_of_forM (R := fun d d' => IsGate d p ∧ Ledger g done (gates + 1) steps place d →
        IsGate d' p ∧ Ledger g done (gates + 1) steps place d') (fun _ => id)
      (fun _ _ _ h₁ h₂ hd => h₂ (h₁ hd)) (fun u _ d d' hrun hd => ?_) hexits ⟨hgate₂, hl₂⟩
    obtain ⟨hl', -⟩ := books_addGateArc (c := d) hd.1 hrun _ _ _ _ hd.2
    rw [List.append_nil] at hl'
    exact ⟨hkeep hd.2.consistent hd.1 hrun, hl'⟩
  obtain ⟨hl₄, -⟩ := books_addGateArc hloop.1 hown _ _ _ _ hloop.2
  rwa [List.append_nil] at hl₄

end Construction

end ProcessNet
