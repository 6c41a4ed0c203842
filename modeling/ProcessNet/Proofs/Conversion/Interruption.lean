/-
Events on subprocesses and terminate ends, stitch by stitch. The transition of an error or a cancellation
takes from one end, the only one left of those that raise it; the transition of a message takes from its
gate. What puts a token on an end that clears its subprocess closes every other place of it.
-/
import ProcessNet.Proofs.Conversion.Stitching

namespace ProcessNet.Construction

open Identifier Net ProcessGraph

variable {g : ProcessGraph} {P : Permit} {showEvents : Bool} {c c' : Construction} {f k : FlowId}
  {p q : PlaceId} {t u : TransitionId} {n m : NodeId} {s : JoinedSubprocess}
  {l : List JoinedSubprocess}

/-! ## Ends that are merged -/

/-- Arcs that `addArc` draws one by one, each for a reason that the others do not touch. -/
theorem sewn_addArcs {α : Type} {arc : α → Arc} {xs : List α}
    (hlaid : ∀ x ∈ xs, ∀ n, SameNodes c.net n → c.net.arcs ⊆ n.arcs →
      (∀ a ∈ n.arcs, a ∈ c.net.arcs ∨ ∃ y ∈ xs, a = arc y) → Laid g P { c with net := n } (arc x))
    (h : (xs.forM fun x => addArc (arc x)) c = .ok () c') : Sewn g P c c' := by
  induction xs generalizing c with
  | nil =>
    cases h
    exact .refl _
  | cons x xs ih =>
    rw [List.forM] at h
    obtain ⟨_, c₁, hx, hxs⟩ := bind_eq_ok.1 h
    intro hs
    have h₁ := sewn_addArc hx
      (hlaid x List.mem_cons_self c.net (.refl _) (fun _ ha => ha) fun _ => .inl) hs
    obtain ⟨n₁, rfl, hadd⟩ := addArc_effect hs.valid.consistent hx
    refine h₁.trans (ih (fun y hy n hnodes harcs hback => ?_) hxs (h₁.sound hs))
    refine hlaid y (List.mem_cons_of_mem _ hy) n (hadd.nodes.trans hnodes)
      (fun a ha => harcs ((hadd.mem_arcs a).2 (.inr ha))) fun a ha => ?_
    rcases hback a ha with ha | ⟨z, hz, rfl⟩
    · exact ((hadd.mem_arcs a).1 ha).symm.imp_right fun he => ⟨x, List.mem_cons_self, he⟩
    · exact .inr ⟨z, List.mem_cons_of_mem _ hz, rfl⟩

/-- `mergeInto` merges one end into another one that raises the same. -/
theorem stitches_mergeInto {main duplicate : PlaceId} (hs : Sound g c) (hsub : P.sub s)
    (hf : c.flowPlaces.lookup f = some main) (hfr : Raising g f s.id)
    (hk : c.flowPlaces.lookup k = some duplicate) (hkr : Raising g k s.id) (hsame : SameEnd g k f)
    (hne : main ≠ duplicate) (hlive : c.net.hasPlace main)
    (h : mergeInto main duplicate c = .ok () c') :
    Stitches g P c c' ∧ c'.net.hasPlace main ∧ c'.net.hasPlace duplicate = false ∧
      ∀ a ∈ c'.net.arcs, a.kind ≠ .output → a ∈ c.net.arcs := by
  unfold mergeInto at h
  rw [get_bind] at h
  obtain ⟨_, c₁, hmerge, h₁⟩ := bind_eq_ok.1 h
  obtain ⟨x, c₂, hremove, h₂⟩ := bind_eq_ok.1 h₁
  cases h₂
  have hst : Stitches g P c c₁ := by
    refine sewn_addArcs (fun t ht n _ harcs _ => .merge hsub hf hfr hk hkr (harcs ?_)) hmerge hs
    exact (mem_producers hs.valid.consistent.mirrored).1 ht
  have hs₁ := hst.sound hs
  obtain ⟨n₁, rfl, hadd⟩ := addArcs_effect hs.valid.consistent hmerge
  obtain ⟨n₂, hgone, rfl⟩ := onNet_eq_ok.1 hremove
  have hgone' := hadd.consistent.removePlace hgone
  -- The place that goes has no consumers, since the other one is still there.
  have hnone : ∀ t, Arc.input duplicate t ∉ n₁.arcs := fun t ha =>
    hne (hs₁.sole k duplicate t hk (hkr.1.symm ▸ hkr) ha f main hf hsame
      (by rwa [hadd.nodes.hasPlace]))
  have hdrop : Stitch g P { c with net := n₁ } { c with net := n₂ } := .drop hsub hk hkr hnone hgone'
  have hvalid := Edit.valid (F := unfenced) (.drop id hgone) hs₁.valid
  refine ⟨hst.tail ⟨hdrop, hvalid⟩, ?_, ?_, fun a ha hkind => ?_⟩
  · rw [Net.hasPlace, hgone'.place?, if_neg hne]
    exact (hadd.nodes.hasPlace main).trans hlive
  · rw [Net.hasPlace, hgone'.place?, if_pos rfl]
    rfl
  · rcases (hadd.mem_arcs _).1 ((hgone'.mem_arcs _).1 ha).1 with ⟨_, _, rfl⟩ | ha
    · exact absurd rfl hkind
    · exact ha

/-- `mergeInto` puts all the other ends into the first one. -/
theorem stitches_mergeIntos {main : PlaceId} {duplicates : List PlaceId} (hs : Sound g c)
    (hsub : P.sub s) (hf : c.flowPlaces.lookup f = some main) (hfr : Raising g f s.id)
    (hall : ∀ q ∈ duplicates, main ≠ q ∧
      ∃ k, c.flowPlaces.lookup k = some q ∧ Raising g k s.id ∧ SameEnd g k f)
    (hlive : c.net.hasPlace main) (h : duplicates.forM (mergeInto main) c = .ok () c') :
    Stitches g P c c' ∧ c'.net.hasPlace main ∧ (∀ q ∈ duplicates, c'.net.hasPlace q = false) ∧
      ∀ a ∈ c'.net.arcs, a.kind ≠ .output → a ∈ c.net.arcs := by
  induction duplicates generalizing c with
  | nil =>
    cases h
    exact ⟨.refl, hlive, fun _ hq => absurd hq List.not_mem_nil, fun _ ha _ => ha⟩
  | cons q duplicates ih =>
    rw [List.forM] at h
    obtain ⟨_, c₁, hq, hrest⟩ := bind_eq_ok.1 h
    obtain ⟨hne, k, hk, hkr, hsame⟩ := hall q List.mem_cons_self
    obtain ⟨h₁, hlive₁, hdead, hin₁⟩ :=
      stitches_mergeInto hs hsub hf hfr hk hkr hsame hne hlive hq
    have hs₁ := h₁.sound hs
    have hflows := Stitches.flowPlaces h₁
    obtain ⟨h₂, hlive₂, hdead₂, hin₂⟩ := ih hs₁ (by rwa [hflows])
      (fun r hr => hflows ▸ hall r (List.mem_cons_of_mem _ hr)) hlive₁ hrest
    refine ⟨h₁.trans h₂, hlive₂, fun r hr => ?_, fun a ha hkind => hin₁ a (hin₂ a ha hkind) hkind⟩
    rcases List.mem_cons.1 hr with rfl | hr
    · refine Bool.eq_false_iff.2 fun hback => ?_
      rw [h₂.live_back hs₁.valid (by rwa [hflows]) hback] at hdead
      cases hdead
    · exact hdead₂ r hr

/-- `collectEnd` answers the places of some ends, those that are live and each of them once. -/
theorem collectEnds_eq_ok {nodes : List NodeId} {found ps : List PlaceId}
    (h : nodes.foldlM (collectEnd g) found c = .ok ps c') :
    c' = c ∧ (found.Nodup → ps.Nodup) ∧
      (∀ p ∈ ps, p ∈ found ∨ ∃ n ∈ nodes, inPlace g n c = .ok p c ∧ c.net.hasPlace p) ∧
      (∀ p ∈ found, p ∈ ps) ∧
      ∀ n ∈ nodes, ∃ p, inPlace g n c = .ok p c ∧ (c.net.hasPlace p → p ∈ ps) := by
  -- along the list, with what was found before as the accumulator of `collectEnd`
  induction nodes generalizing found with
  | nil =>
    cases h
    exact ⟨rfl, id, fun _ => .inl, fun _ => id, fun _ hn => absurd hn List.not_mem_nil⟩
  | cons n nodes ih =>
    rw [List.foldlM_cons] at h
    obtain ⟨found₁, c₁, hcollect, hrest⟩ := bind_eq_ok.1 h
    obtain ⟨p, c₂, hp, hturn⟩ := bind_eq_ok.1 hcollect
    obtain ⟨_, _, _, rfl⟩ := inPlace_eq_ok.1 hp
    rw [get_bind] at hturn
    split at hturn
    · rename_i hnew
      cases hturn
      obtain ⟨rfl, hnodup, hmem, hold, hall⟩ := ih hrest
      refine ⟨rfl, fun hfound => hnodup ?_, fun q hq => ?_, fun q hq => ?_, fun m hm => ?_⟩
      · exact List.nodup_append.2 ⟨hfound, List.nodup_singleton p, fun q hq r hr he =>
          hnew.2 (List.mem_singleton.1 hr ▸ he ▸ hq)⟩
      · rcases hmem q hq with hq | ⟨m, hm, hrun, hlive⟩
        · rcases List.mem_append.1 hq with hq | hq
          · exact .inl hq
          · cases List.mem_singleton.1 hq
            exact .inr ⟨n, List.mem_cons_self, hp, hnew.1⟩
        · exact .inr ⟨m, List.mem_cons_of_mem _ hm, hrun, hlive⟩
      · exact hold q (List.mem_append_left _ hq)
      · rcases List.mem_cons.1 hm with rfl | hm
        · exact ⟨p, hp, fun _ => hold p (List.mem_append_right _ List.mem_cons_self)⟩
        · exact hall m hm
    · rename_i hnew
      cases hturn
      obtain ⟨rfl, hnodup, hmem, hold, hall⟩ := ih hrest
      refine ⟨rfl, hnodup, fun q hq => ?_, hold, fun m hm => ?_⟩
      · rcases hmem q hq with hq | ⟨m, hm, hrun, hlive⟩
        · exact .inl hq
        · exact .inr ⟨m, List.mem_cons_of_mem _ hm, hrun, hlive⟩
      · rcases List.mem_cons.1 hm with rfl | hm
        · refine ⟨p, hp, fun hlive => hold p ?_⟩
          exact Decidable.not_not.1 fun hnot => hnew ⟨hlive, hnot⟩
        · exact hall m hm

/-- In gateway form `inPlace` of an end is the place of any flow into it. -/
theorem inPlace_eq_of_target (hg : g.Normal) (hs : Sound g c) (hn : (g.node n).kind.isGateway = false)
    (hf : c.flowPlaces.lookup f = some p) (htarget : (g.flow f).target = n)
    (h : inPlace g n c = .ok q c') : q = p := by
  obtain ⟨k, hk, hq, -⟩ := inPlace_eq_ok.1 h
  have hmem := (hg.linked.mem_incoming n f).2 ⟨hs.bound f p hf, htarget⟩
  have hslim := (inGatewayForm_iff.1 hg.form n hn).1
  have hone : f = k := by
    cases hincoming : (g.node n).incoming with
    | nil => rw [hincoming] at hmem; cases hmem
    | cons j rest =>
      rw [hincoming] at hmem hslim hk
      cases rest with
      | nil =>
        cases hk
        exact List.mem_singleton.1 hmem
      | cons i rest => simp at hslim
  rw [hone, hq] at hf
  exact Option.some.inj hf

theorem mem_raisingEnds {process : String} {event : Node} {trigger : BoundaryTrigger} :
    n ∈ raisingEnds g process event trigger ↔ index n < g.nodes.size ∧
      (g.node n).process = process ∧ (g.node n).kind = .endEvent trigger.endTrigger ∧
        (g.node n).eventName = event.eventName := by
  rw [raisingEnds, List.mem_filter, mem_endsOf, Bool.and_eq_true, decide_eq_true_eq,
    decide_eq_true_eq]
  constructor
  · rintro ⟨⟨hn, hprocess, _⟩, hkind, hname⟩
    exact ⟨hn, hprocess, hkind, hname⟩
  · rintro ⟨hn, hprocess, hkind, hname⟩
    exact ⟨⟨hn, hprocess, by rw [hkind]; rfl⟩, hkind, hname⟩

section RaisingEnds

variable {event : Node} {trigger : BoundaryTrigger} {id : String} {j : FlowId}

theorem raising_of_mem_raisingEnds (hinternal : trigger.isInternal)
    (hk : (g.flow k).target ∈ raisingEnds g id event trigger) : Raising g k id := by
  obtain ⟨_, hprocess, hkind, _⟩ := mem_raisingEnds.1 hk
  exact ⟨hprocess, trigger, hinternal, hkind⟩

theorem sameEnd_of_mem_raisingEnds (hj : (g.flow j).target ∈ raisingEnds g id event trigger)
    (hk : (g.flow k).target ∈ raisingEnds g id event trigger) : SameEnd g j k := by
  obtain ⟨_, hprocess, hkind, hname⟩ := mem_raisingEnds.1 hj
  obtain ⟨_, hprocess', hkind', hname'⟩ := mem_raisingEnds.1 hk
  exact ⟨hprocess'.trans hprocess.symm, hkind'.trans hkind.symm, hname'.trans hname.symm⟩

/-- An end like one that `raisingEnds` lists is listed, too. -/
theorem SameEnd.mem_raisingEnds (h : SameEnd g j k)
    (hj : (g.flow j).target ∈ raisingEnds g id event trigger)
    (hk : index (g.flow k).target < g.nodes.size) :
    (g.flow k).target ∈ raisingEnds g id event trigger := by
  obtain ⟨_, hprocess, hkind, hname⟩ := Construction.mem_raisingEnds.1 hj
  exact Construction.mem_raisingEnds.2
    ⟨hk, h.process.trans hprocess, h.kind.trans hkind, h.eventName.trans hname⟩

end RaisingEnds

/-- `mergeRaisingEnds` merges the ends that raise an event into one, and no other is left. -/
theorem stitches_mergeRaisingEnds (hg : g.Normal) (hs : Sound g c) (hsub : P.sub s) {event : Node}
    {trigger : BoundaryTrigger} (hinternal : trigger.isInternal)
    (h : mergeRaisingEnds g s event trigger c = .ok p c') :
    Stitches g P c c' ∧ (∀ a ∈ c'.net.arcs, a.kind ≠ .output → a ∈ c.net.arcs) ∧
      ∃ f, c.flowPlaces.lookup f = some p ∧ Raising g f s.id ∧
        ∀ k q, c.flowPlaces.lookup k = some q → SameEnd g f k → c'.net.hasPlace q → q = p := by
  obtain ⟨ps, c₁, hcollect, h₁⟩ := bind_eq_ok.1 h
  obtain ⟨rfl, hnodup, hmem, _, hall⟩ := collectEnds_eq_ok hcollect
  -- Each place that is collected is that of a flow into one of the ends.
  have hflow : ∀ q ∈ ps, c₁.net.hasPlace q ∧ ∃ k, c₁.flowPlaces.lookup k = some q ∧
      (g.flow k).target ∈ raisingEnds g s.id event trigger := by
    intro q hq
    rcases hmem q hq with hq | ⟨n, hn, hrun, hlive⟩
    · cases hq
    · obtain ⟨-, k, hk, rfl⟩ := inPlace_takes hg.linked hrun
      exact ⟨hlive, k, hk, hn⟩
  cases ps with
  | nil => cases h₁
  | cons main duplicates =>
    obtain ⟨_, c₂, hmerge, h₂⟩ := bind_eq_ok.1 h₁
    cases h₂
    obtain ⟨hlive, f, hf, hfend⟩ := hflow p List.mem_cons_self
    have hraising := raising_of_mem_raisingEnds hinternal hfend
    have hdup := List.nodup_cons.1 (hnodup List.nodup_nil)
    obtain ⟨hst, _, hdead, hin⟩ := stitches_mergeIntos hs hsub hf hraising
      (fun q hq => by
        obtain ⟨-, k, hk, hkend⟩ := hflow q (List.mem_cons_of_mem _ hq)
        exact ⟨fun he => hdup.1 (he ▸ hq), k, hk, raising_of_mem_raisingEnds hinternal hkend,
          sameEnd_of_mem_raisingEnds hkend hfend⟩)
      hlive hmerge
    refine ⟨hst, hin, f, hf, hraising, fun k q hk hsame hlive' => ?_⟩
    -- A flow into such an end has its place collected, and only the first one is left.
    have hkend := hsame.mem_raisingEnds hfend (hg.linked.target k (hs.bound k q hk))
    obtain ⟨r, hrun, hcollected⟩ := hall _ hkend
    have hgateway : (g.node (g.flow k).target).kind.isGateway = false := by
      rw [(mem_raisingEnds.1 hkend).2.2.1]
      rfl
    have hrq := inPlace_eq_of_target hg hs hgateway hk rfl hrun
    subst hrq
    rcases List.mem_cons.1 (hcollected (hst.live_back hs.valid hk hlive')) with hr | hr
    · exact hr
    · rw [hdead r hr] at hlive'
      cases hlive'

/-! ## Events -/

/-- While the events on `s` are added, a transition of one of them leads out of it, or to an end that is
merged with such an end. -/
theorem Stitch.escapes (h : Stitch g { sub := (· = s) } c c') (hs : Sound g c)
    (ht : c.net.hasTransition t) (hne : t ≠ s.enter)
    (hout : ∀ q, Arc.output t q ∈ c.net.arcs →
      ∃ k, c.flowPlaces.lookup k = some q ∧ Escapes g c s k) :
    ∀ q, Arc.output t q ∈ c'.net.arcs →
      ∃ k, c'.flowPlaces.lookup k = some q ∧ Escapes g c' s k := by
  intro q ha
  have hflows := h.flowPlaces
  simp only [Escapes.iff_of_eq hflows, hflows]
  rcases h.output_back ha with ha | hnew
  · exact hout q ha
  · cases hnew with
    | step _ _ _ _ _ hfresh => exact absurd rfl (ne_of_hasTransition ht hfresh)
    | leave hsub hm _ hf hsource =>
      cases hsub
      exact ⟨_, hf, .inl (hsource ▸ hm)⟩
    | opens hsub henter =>
      cases hsub
      exact absurd henter hne
    | merge hsub hf hfr hk hkr ha =>
      cases hsub
      obtain ⟨j, hj, hescapes⟩ := hout _ ha
      refine ⟨_, hf, .inr ?_⟩
      rcases hescapes with hsource | hmerged
      · exact ⟨j, _, hj, hsource, hs.eq_of_kind hk hj hkr.ne_normal ▸ hkr⟩
      · exact hmerged

theorem Stitches.escapes (h : Stitches g { sub := (· = s) } c c') (hs : Sound g c)
    (ht : c.net.hasTransition t) (hne : t ≠ s.enter)
    (hout : ∀ q, Arc.output t q ∈ c.net.arcs →
      ∃ k, c.flowPlaces.lookup k = some q ∧ Escapes g c s k) :
    ∀ q, Arc.output t q ∈ c'.net.arcs →
      ∃ k, c'.flowPlaces.lookup k = some q ∧ Escapes g c' s k := by
  induction h with
  | refl => exact hout
  | tail h₁ hstep ih =>
    exact hstep.1.escapes (Stitches.sound h₁ hs) (Stitches.hasTransition h₁ ht) hne ih

/-- The transition `t` of the event `m` on `s` takes from one end only, which raises it. The joined
subprocesses are those of the list `l`, and `t` is the exit of none of them. -/
structure Caught (g : ProcessGraph) (l : List JoinedSubprocess) (s : JoinedSubprocess) (m : NodeId)
    (t : TransitionId) (p : PlaceId) (c : Construction) : Prop where
  bears : c.Bears t (boundaryName (g.node m).id s.parent)
  raising : ∃ f, c.flowPlaces.lookup f = some p ∧ Raising g f s.id
  input : ∀ q, Arc.input q t ∈ c.net.arcs ↔ q = p
  apart : ∀ r ∈ l, t ∉ r.exits

/-- The transition `t` of the message `m` on `s` takes from one gate only, which the entry opens. The
joined subprocesses are those of the list `l`, and `t` is the exit of none of them. -/
structure Awaited (g : ProcessGraph) (l : List JoinedSubprocess) (s : JoinedSubprocess) (m : NodeId)
    (t : TransitionId) (p : PlaceId) (c : Construction) : Prop where
  bears : c.Bears t (boundaryName (g.node m).id s.parent)
  gate : IsGate c p
  opened : Arc.output s.enter p ∈ c.net.arcs
  input : ∀ q, Arc.input q t ∈ c.net.arcs ↔ q = p
  apart : ∀ r ∈ l, t ∉ r.exits

/-- What takes from one place only, and is no exit, gets no other place to take from. -/
theorem Stitch.input_iff (h : Stitch g P c c') (hsub : ∀ r, P.sub r → r ∈ l)
    (hlive : c.net.hasTransition t) (hapart : ∀ r ∈ l, t ∉ r.exits)
    (hin : ∀ q, Arc.input q t ∈ c.net.arcs ↔ q = p) (q : PlaceId) :
    Arc.input q t ∈ c'.net.arcs ↔ q = p := by
  refine ⟨fun ha => ?_, fun he => h.input_kept ((hin q).2 he)⟩
  rcases h.input_back ha with ha | hnew
  · exact (hin q).1 ha
  · have hold := (hin p).2 rfl
    cases hnew with
    | step _ _ _ _ _ _ hfresh => exact absurd rfl (ne_of_hasTransition hlive hfresh)
    | «catch» _ _ _ _ hnone => exact absurd hold (hnone p)
    | closes hs _ hexit =>
      rcases hexit with hexit | hnone
      · exact absurd hexit (hapart _ (hsub _ hs))
      · exact absurd hold (hnone p)

theorem Stitches.input_iff (h : Stitches g P c c') (hsub : ∀ r, P.sub r → r ∈ l)
    (hlive : c.net.hasTransition t) (hapart : ∀ r ∈ l, t ∉ r.exits)
    (hin : ∀ q, Arc.input q t ∈ c.net.arcs ↔ q = p) :
    ∀ q, Arc.input q t ∈ c'.net.arcs ↔ q = p := by
  induction h with
  | refl => exact hin
  | tail h₁ hs ih => exact hs.1.input_iff hsub (Stitches.hasTransition h₁ hlive) hapart ih

theorem Stitches.caught (h : Stitches g P c c') (hsub : ∀ r, P.sub r → r ∈ l)
    (ht : Caught g l s m t p c) : Caught g l s m t p c' where
  bears := h.bears ht.bears
  raising := h.flowPlaces ▸ ht.raising
  input := h.input_iff hsub ht.bears.live ht.apart ht.input
  apart := ht.apart

theorem Stitches.awaited (h : Stitches g P c c') (hsub : ∀ r, P.sub r → r ∈ l) (hs : Sound g c)
    (ht : Awaited g l s m t p c) : Awaited g l s m t p c' where
  bears := h.bears ht.bears
  gate := h.isGate hs ht.gate
  opened := h.arc_kept hs.valid ht.opened (h.isGate hs ht.gate).live
  input := h.input_iff hsub ht.bears.live ht.apart ht.input
  apart := ht.apart

/-- The node is an event that is raised inside of something. -/
def IsInternal (n : Node) : Prop :=
  ∃ trigger activity, n.kind = .boundaryEvent trigger activity ∧ trigger.isInternal

/-- What has been done for some events on `s`, where these ends raise the internal ones. -/
structure Handled (g : ProcessGraph) (l : List JoinedSubprocess) (s : JoinedSubprocess)
    (events : NodeId → Prop) (raised : List PlaceId) (c : Construction) : Prop where
  internal : ∀ m, events m → IsInternal (g.node m) → ∃ t p, Caught g l s m t p c ∧ p ∈ raised
  raised : ∀ p ∈ raised, ∃ m t, events m ∧ IsInternal (g.node m) ∧ Caught g l s m t p c
  message : ∀ m, events m → IsMessage (g.node m) → ∃ t p, Awaited g l s m t p c

theorem Handled.nothing : Handled g l s (fun _ => False) [] c :=
  ⟨fun _ => False.elim, fun _ hp => absurd hp List.not_mem_nil, fun _ => False.elim⟩

theorem Stitches.handled {events : NodeId → Prop} {raised : List PlaceId} (h : Stitches g P c c')
    (hsub : ∀ r, P.sub r → r ∈ l) (hs : Sound g c) (hh : Handled g l s events raised c) :
    Handled g l s events raised c' where
  internal m hm hinternal := by
    obtain ⟨t, p, ht, hp⟩ := hh.internal m hm hinternal
    exact ⟨t, p, h.caught hsub ht, hp⟩
  raised p hp := by
    obtain ⟨m, t, hm, hinternal, ht⟩ := hh.raised p hp
    exact ⟨m, t, hm, hinternal, h.caught hsub ht⟩
  message m hm hmessage := by
    obtain ⟨t, p, ht⟩ := hh.message m hm hmessage
    exact ⟨t, p, h.awaited hsub hs ht⟩

/-- A transition that took from nowhere takes from one place once an arc leads to it. -/
theorem input_iff_of_addArc (hc : c.net.Consistent) (hnone : ∀ q, Arc.input q t ∉ c.net.arcs)
    (h : addArc (.input p t) c = .ok () c') (q : PlaceId) : Arc.input q t ∈ c'.net.arcs ↔ q = p := by
  obtain ⟨n, rfl, hadd⟩ := addArc_effect hc h
  rw [hadd.mem_arcs]
  refine ⟨fun ha => ?_, fun he => .inl (he ▸ rfl)⟩
  rcases ha with he | ha
  · cases he
    rfl
  · exact absurd ha (hnone q)

/-- `addGate` makes a gate, and the entry opens it. This is the only arc at the gate. -/
theorem stitches_openGate (hs : Sound g c) (hsub : P.sub s) {x : Place} {c₁ : Construction}
    (hrole : x.role = .boundaryGate) (hprocess : x.process = s.id)
    (hplace : addPlace x c = .ok p c₁) (henter : addArc (.output s.enter p) c₁ = .ok () c') :
    Stitches g P c c' ∧ IsGate c' p ∧ (∀ u, Arc.reset p u ∉ c'.net.arcs) ∧
      ∀ a, a ∈ c'.net.arcs ↔ a = .output s.enter p ∨ a ∈ c.net.arcs := by
  have hvalid := Makes.valid (makes_addPlace _) hplace hs.valid
  obtain ⟨n₁, rfl, hp, hadd₁⟩ := addPlace_effect hs.valid.consistent hplace
  have st₁ : Stitches g P c { c with net := n₁ } := .of (.gate hsub hrole hprocess hp hadd₁) hvalid
  have hs₁ := st₁.sound hs
  have hbare : ∀ a ∈ n₁.arcs, a.place ≠ p := fun _ ha =>
    hs.valid.consistent.place_ne hadd₁.fresh (hadd₁.arcs ▸ ha)
  have st₂ := sewn_addArc henter (P := P) (g := g)
    (.opens hsub hadd₁.place?_self hrole hprocess fun _ ha => hbare _ ha rfl) hs₁
  have hgate := st₂.isGate hs₁ ⟨x, hadd₁.place?_self, hrole⟩
  obtain ⟨n₂, rfl, hadd₂⟩ := addArc_effect hadd₁.consistent henter
  refine ⟨st₁.trans st₂, hgate, fun u ha => ?_, fun a => ?_⟩
  · rcases (hadd₂.mem_arcs _).1 ha with he | ha
    · cases he
    · exact hbare _ ha rfl
  · rw [hadd₂.mem_arcs, hadd₁.arcs]

/-- `addGate` lets the exits close a gate. -/
theorem stitches_closeGate (hs : Sound g c) (hsub : P.sub s) (hgate : IsGate c p)
    (hunreset : ∀ u, Arc.reset p u ∉ c.net.arcs)
    (h : (s.exits.forM fun exit => addArc (.input p exit)) c = .ok () c') :
    Stitches g P c c' ∧ (∀ u, Arc.reset p u ∉ c'.net.arcs) ∧
      ∀ a, a ∈ c'.net.arcs ↔ (∃ u ∈ s.exits, a = .input p u) ∨ a ∈ c.net.arcs := by
  have st : Stitches g P c c' := by
    refine sewn_addArcs (fun u hu n hnodes _ hback => .closes hsub ?_ (.inl hu) fun v ha => ?_) h hs
    · obtain ⟨x, hx, hrole⟩ := hgate
      exact ⟨x, (hnodes.place? p).trans hx, hrole⟩
    · -- The arcs that are drawn before this one reset nothing.
      rcases hback _ ha with ha | ⟨_, _, he⟩
      · exact hunreset v ha
      · cases he
  obtain ⟨n, rfl, hadd⟩ := addArcs_effect hs.valid.consistent h
  refine ⟨st, fun u ha => ?_, hadd.mem_arcs⟩
  rcases (hadd.mem_arcs _).1 ha with ⟨_, _, he⟩ | ha
  · cases he
  · exact hunreset u ha

/-- `addGate` gives a message its gate. -/
theorem stitches_addGate (hs : Sound g c) (hsub : P.sub s) {event : Node}
    (hexit : t ∉ s.exits) (hnone : ∀ q, Arc.input q t ∉ c.net.arcs) (h : addGate s event t c = .ok () c') :
    Stitches g P c c' ∧ ∃ p, IsGate c' p ∧ Arc.output s.enter p ∈ c'.net.arcs ∧
      ∀ q, Arc.input q t ∈ c'.net.arcs ↔ q = p := by
  obtain ⟨p, c₁, hplace, h₁⟩ := bind_eq_ok.1 h
  obtain ⟨_, c₂, henter, h₂⟩ := bind_eq_ok.1 h₁
  obtain ⟨_, c₃, hexits, hown⟩ := bind_eq_ok.1 h₂
  obtain ⟨st₂, hgate₂, hunreset₂, hmem₂⟩ := stitches_openGate hs hsub rfl rfl hplace henter
  have hs₂ := st₂.sound hs
  obtain ⟨st₃, hunreset₃, hmem₃⟩ := stitches_closeGate hs₂ hsub hgate₂ hunreset₂ hexits (P := P)
  have hs₃ := st₃.sound hs₂
  have hgate₃ := st₃.isGate hs₂ hgate₂
  -- The message is no exit, so it still takes from nowhere.
  have hnone₃ : ∀ q, Arc.input q t ∉ c₃.net.arcs := by
    intro q ha
    rcases (hmem₃ _).1 ha with ⟨u, hu, he⟩ | ha
    · cases he
      exact hexit hu
    · rcases (hmem₂ _).1 ha with he | ha
      · cases he
      · exact hnone q ha
  have st₄ := sewn_addArc hown (P := P) (g := g) (.closes hsub hgate₃ (.inr hnone₃) hunreset₃) hs₃
  have hgate := st₄.isGate hs₃ hgate₃
  exact ⟨(st₂.trans st₃).trans st₄, p, hgate,
    (st₃.trans st₄).arc_kept hs₂.valid ((hmem₂ _).2 (.inl rfl)) hgate.live,
    input_iff_of_addArc hs₃.valid.consistent hnone₃ hown⟩

/-- The transition of an error or a cancellation takes from the end that raises it, the only one that
is left. -/
theorem stitches_catchEnd (hg : g.Normal) (hs : Sound g c) (hsub : P.sub s) {event : Node}
    {trigger : BoundaryTrigger} {c₁ : Construction} (hinternal : trigger.isInternal)
    (ht : c.net.hasTransition t) (hne : t ≠ s.enter)
    (honly : ∀ a ∈ c.net.arcs, a.transition = t → a = .output t q)
    (hout : ∃ k, c.flowPlaces.lookup k = some q ∧ Escapes g c s k)
    (hmerge : mergeRaisingEnds g s event trigger c = .ok p c₁)
    (hinput : addArc (.input p t) c₁ = .ok () c') :
    Stitches g P c c' ∧ (∃ k, c'.flowPlaces.lookup k = some p ∧ Raising g k s.id) ∧
      ∀ r, Arc.input r t ∈ c'.net.arcs ↔ r = p := by
  -- While the ends are merged nothing else is worked on, so the event still leads out of the subprocess.
  obtain ⟨stmerge, hback, k, hk, hraising, hsole⟩ :=
    stitches_mergeRaisingEnds hg hs (P := { sub := (· = s) }) rfl hinternal hmerge
  have st₁ : Stitches g P c c₁ :=
    stmerge.mono (fun _ => False.elim) (fun r hr => hr ▸ hsub) False.elim
  have hs₁ := st₁.sound hs
  have hout₁ := stmerge.escapes hs ht hne fun r ha => by
    obtain rfl : r = q := congrArg Arc.place (honly _ ha rfl)
    exact hout
  have hnone : ∀ a ∈ c₁.net.arcs, a.kind ≠ .output → a.transition ≠ t := by
    intro a ha hkind he
    rw [honly a (hback a ha hkind) he] at hkind
    exact hkind rfl
  have hnoinput : ∀ r, Arc.input r t ∉ c₁.net.arcs := fun r ha => hnone _ ha nofun rfl
  rw [← Stitches.flowPlaces st₁] at hk hsole
  have st₂ := sewn_addArc hinput (P := P) (g := g)
    (.catch hsub hk hraising hsole hnoinput hout₁ fun r ha => hnone _ ha nofun rfl) hs₁
  exact ⟨st₁.trans st₂, ⟨k, Stitches.flowPlaces st₂ ▸ hk, hraising⟩,
    input_iff_of_addArc hs₁.valid.consistent hnoinput hinput⟩

/-- The part of `addSubprocessBoundary` for every event: it gets a transition that leads to the flow
behind it. -/
theorem stitches_addEvent (hs : Sound g c) (hsub : P.sub s) (hm : m ∈ g.boundaryEventsOf s.id)
    (hf : c.flowPlaces.lookup f = some q) (hsource : (g.flow f).source = m) {x : Transition}
    (hname : x.name = boundaryName (g.node m).id s.parent) (hprocess : x.process = s.parent)
    {c₁ : Construction}
    (htransition : addTransition x c = .ok t c₁) (harc : addArc (.output t q) c₁ = .ok () c') :
    Stitches g P c c' ∧ c'.Bears t (boundaryName (g.node m).id s.parent) ∧
      c.net.hasTransition t = false ∧ ∀ a ∈ c'.net.arcs, a.transition = t → a = .output t q := by
  have hvalid := Makes.valid (makes_addTransition _) htransition hs.valid
  obtain ⟨n₁, rfl, hadd₁⟩ := addTransition_effect hs.valid.consistent htransition
  have st₁ : Stitches g P c { c with net := n₁ } := .of (.event hsub hm hname hprocess hadd₁) hvalid
  have hs₁ := st₁.sound hs
  have hbears : Bears { c with net := n₁ } t (boundaryName (g.node m).id s.parent) :=
    ⟨x, hadd₁.transition?_self, hname⟩
  have hnone : ∀ a ∈ n₁.arcs, a.transition ≠ t := fun _ ha =>
    hs.valid.consistent.transition_ne hadd₁.fresh (hadd₁.arcs ▸ ha)
  have st₂ := sewn_addArc harc (P := P) (g := g)
    (.leave hsub hm hbears hf hsource fun _ ha => hnone _ ha rfl) hs₁
  obtain ⟨n₂, rfl, hadd₂⟩ := addArc_effect hadd₁.consistent harc
  refine ⟨st₁.trans st₂, st₂.bears hbears, hadd₁.fresh, fun a ha he => ?_⟩
  rcases (hadd₂.mem_arcs _).1 ha with rfl | ha
  · rfl
  · exact absurd he (hnone a ha)

section Handled

variable {events : NodeId → Prop} {raised raised' : List PlaceId}

theorem not_isMessage_of_isInternal {x : Node} (hi : IsInternal x) : ¬ IsMessage x := by
  rintro ⟨activity, hm⟩
  obtain ⟨trigger, _, hkind, hinternal⟩ := hi
  rw [hkind] at hm
  cases hm
  cases hinternal

theorem Handled.insert_internal (hh : Handled g l s events raised c) (hm : IsInternal (g.node m))
    (ht : Caught g l s m t p c) (hraised : ∀ r, r ∈ raised' ↔ r ∈ raised ∨ r = p) :
    Handled g l s (fun k => k = m ∨ events k) raised' c where
  internal j hj hinternal := by
    rcases hj with rfl | hj
    · exact ⟨t, p, ht, (hraised p).2 (.inr rfl)⟩
    · obtain ⟨u, r, hu, hr⟩ := hh.internal j hj hinternal
      exact ⟨u, r, hu, (hraised r).2 (.inl hr)⟩
  raised r hr := by
    rcases (hraised r).1 hr with hr | rfl
    · obtain ⟨j, u, hj, hinternal, hu⟩ := hh.raised r hr
      exact ⟨j, u, .inr hj, hinternal, hu⟩
    · exact ⟨m, t, .inl rfl, hm, ht⟩
  message j hj hmessage := by
    rcases hj with rfl | hj
    · exact absurd hmessage (not_isMessage_of_isInternal hm)
    · exact hh.message j hj hmessage

theorem Handled.insert_message (hh : Handled g l s events raised c) (hm : IsMessage (g.node m))
    (ht : Awaited g l s m t p c) : Handled g l s (fun k => k = m ∨ events k) raised c where
  internal j hj hinternal := by
    rcases hj with rfl | hj
    · exact absurd hm (not_isMessage_of_isInternal hinternal)
    · exact hh.internal j hj hinternal
  raised r hr := by
    obtain ⟨j, u, hj, hinternal, hu⟩ := hh.raised r hr
    exact ⟨j, u, .inr hj, hinternal, hu⟩
  message j hj hmessage := by
    rcases hj with rfl | hj
    · exact ⟨t, p, ht⟩
    · exact hh.message j hj hmessage

/-- `addSubprocessBoundary` adds one event of a subprocess. -/
theorem stitches_addSubprocessBoundary (hg : g.Normal) (hs : Sound g c) (hsub : P.sub s)
    (hl : ∀ r, P.sub r → r ∈ l)
    (hlive : ∀ r ∈ l, ∀ u ∈ r.enter :: r.exits, c.net.hasTransition u)
    (hm : m ∈ g.boundaryEventsOf s.id) {found found' : Interruptions}
    (hh : Handled g l s events found.raised c)
    (h : addSubprocessBoundary g showEvents s found m c = .ok found' c') :
    Stitches g P c c' ∧ Handled g l s (fun k => k = m ∨ events k) found'.raised c' := by
  obtain ⟨-, trigger, hkind⟩ := mem_boundaryEventsOf.1 hm
  simp only [addSubprocessBoundary, hkind] at h
  obtain ⟨q, c₁, hout, h₁⟩ := bind_eq_ok.1 h
  obtain ⟨rfl, f, hf, hsource⟩ := outPlace_gives hg.linked hout
  obtain ⟨t, c₂, htransition, h₂⟩ := bind_eq_ok.1 h₁
  obtain ⟨_, c₃, harc, h₃⟩ := bind_eq_ok.1 h₂
  obtain ⟨st, hbears, hfresh, honly⟩ :=
    stitches_addEvent hs hsub hm hf hsource rfl rfl htransition harc (P := P)
  have hs₃ := st.sound hs
  have hnew : ∀ r ∈ l, t ∉ r.enter :: r.exits := fun r hr ht =>
    ne_of_hasTransition (hlive r hr t ht) hfresh rfl
  have hapart : ∀ r ∈ l, t ∉ r.exits := fun r hr ht => hnew r hr (List.mem_cons_of_mem _ ht)
  by_cases hinternal : trigger.isInternal
  · rw [if_pos hinternal] at h₃
    obtain ⟨p, c₄, hmerge, h₄⟩ := bind_eq_ok.1 h₃
    obtain ⟨_, c₅, hinput, h₅⟩ := bind_eq_ok.1 h₄
    cases h₅
    obtain ⟨st₅, hraising, htakes⟩ := stitches_catchEnd hg hs₃ hsub hinternal hbears.live
      (fun he => hnew s (hl s hsub) (he ▸ List.mem_cons_self)) honly
      ⟨f, Stitches.flowPlaces st ▸ hf, .inl (hsource ▸ hm)⟩ hmerge hinput
    have st' := st.trans st₅
    refine ⟨st', (st'.handled hl hs hh).insert_internal ⟨trigger, s.id, hkind, hinternal⟩
      ⟨st₅.bears hbears, hraising, htakes, hapart⟩ fun r => ?_⟩
    -- The place of the ends is noted once, also where several events share it.
    dsimp only
    split
    · rename_i hp
      exact ⟨.inl, fun hr => hr.elim id fun he => he ▸ hp⟩
    · rw [List.mem_append, List.mem_singleton]
  · rw [if_neg hinternal] at h₃
    obtain ⟨_, c₄, hgate, h₄⟩ := bind_eq_ok.1 h₃
    cases h₄
    have hnone : ∀ r, Arc.input r t ∉ c₃.net.arcs := by
      intro r ha
      cases honly _ ha rfl
    obtain ⟨st₄, p, hp, hopened, hinput⟩ :=
      stitches_addGate hs₃ hsub (hapart s (hl s hsub)) hnone hgate
    have st' := st.trans st₄
    have hmessage : IsMessage (g.node m) := by
      cases trigger with
      | message => exact ⟨s.id, hkind⟩
      | error | cancel => exact absurd rfl hinternal
    exact ⟨st', (st'.handled hl hs hh).insert_message hmessage
      ⟨st₄.bears hbears, hp, hopened, hinput, hapart⟩⟩

/-- `foldlM` with `addSubprocessBoundary` adds all events of a subprocess. -/
theorem stitches_foldlM_boundaries (hg : g.Normal) (hs : Sound g c) (hsub : P.sub s)
    (hl : ∀ r, P.sub r → r ∈ l)
    (hlive : ∀ r ∈ l, ∀ u ∈ r.enter :: r.exits, c.net.hasTransition u) {nodes : List NodeId}
    (hnodes : ∀ m ∈ nodes, m ∈ g.boundaryEventsOf s.id) {found found' : Interruptions}
    (hh : Handled g l s events found.raised c)
    (h : nodes.foldlM (addSubprocessBoundary g showEvents s) found c = .ok found' c') :
    Stitches g P c c' ∧ Handled g l s (fun k => k ∈ nodes ∨ events k) found'.raised c' := by
  induction nodes generalizing c found events with
  | nil =>
    cases h
    refine ⟨.refl, ?_⟩
    simpa using hh
  | cons m nodes ih =>
    rw [List.foldlM_cons] at h
    obtain ⟨found₁, c₁, hm, h⟩ := bind_eq_ok.1 h
    obtain ⟨st₁, hh₁⟩ :=
      stitches_addSubprocessBoundary hg hs hsub hl hlive (hnodes m List.mem_cons_self) hh hm
    obtain ⟨st₂, hh₂⟩ := ih (st₁.sound hs)
      (fun r hr u hu => Stitches.hasTransition st₁ (hlive r hr u hu))
      (fun k hk => hnodes k (List.mem_cons_of_mem _ hk)) hh₁ h
    have hsame : (fun k => k ∈ nodes ∨ k = m ∨ events k) = fun k => k ∈ m :: nodes ∨ events k := by
      funext k
      rw [List.mem_cons, or_left_comm, or_assoc]
    exact ⟨st₁.trans st₂, hsame ▸ hh₂⟩

end Handled

end ProcessNet.Construction
