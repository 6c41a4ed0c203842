/-
Scopes in the net: the places of the flows inside a region, and the gates of its subprocesses. Tokens come
into a scope by the entry of the subprocess or from within, and tokens on terminate ends leave silently.
-/
import ProcessNet.Proofs.Conversion.Clearance
import ProcessNet.Proofs.Process.Region

namespace ProcessNet.Construction

open Identifier Net ProcessGraph

variable {g : ProcessGraph} {P : Permit} {c c' : Construction} {f k : FlowId} {p q : PlaceId}
  {t u : TransitionId} {n m : NodeId} {s : JoinedSubprocess} {l : List JoinedSubprocess}
  {inside : String → Prop}

/-- The place is that of a flow inside, or a gate that the entry of a subprocess inside opens. -/
def InScope (g : ProcessGraph) (inside : String → Prop) (l : List JoinedSubprocess)
    (c : Construction) (q : PlaceId) : Prop :=
  (∃ f, c.flowPlaces.lookup f = some q ∧ inside (g.flow f).process) ∨
    IsGate c q ∧ ∃ s ∈ l, inside s.id ∧ Arc.output s.enter q ∈ c.net.arcs

/-- The place was made for a flow inside, or it is a gate that the entry of a subprocess inside opens. -/
def Owned (g : ProcessGraph) (inside : String → Prop) (l : List JoinedSubprocess)
    (c : Construction) (q : PlaceId) : Prop :=
  (∃ f, MadeFor g c f q ∧ inside (g.flow f).process) ∨
    IsGate c q ∧ ∃ s ∈ l, inside s.id ∧ Arc.output s.enter q ∈ c.net.arcs

theorem Stitches.inScope (h : Stitches g P c c') (hs : Sound g c) (hq : InScope g inside l c q) :
    InScope g inside l c' q := by
  rcases hq with ⟨f, hf, hin⟩ | ⟨hgate, s, hsl, hin, ha⟩
  · exact .inl ⟨f, by rwa [h.flowPlaces], hin⟩
  · have hgate' := h.isGate hs hgate
    exact .inr ⟨hgate', s, hsl, hin, h.arc_kept hs.valid ha hgate'.live⟩

section Region

variable (hr : g.Region n inside)
include hr

/-- No flow inside shares its place. -/
theorem eq_of_inside (hs : Sound g c) (hf : c.flowPlaces.lookup f = some q)
    (hin : inside (g.flow f).process) (hk : c.flowPlaces.lookup k = some q) : k = f := by
  rcases hs.shared f k q hf hk with he | ⟨hroot, _⟩
  · exact he.symm
  · have htarget := (hr.confined.target f (hs.bound f q hf)).1 hin
    rw [(kind_of_entersRootEnd hroot).2] at htarget
    exact absurd htarget hr.root

/-- Where no border is crossed, the scope consists of the places that were made inside. -/
theorem InScope.owned (hs : Sound g c) (hq : InScope g inside l c q) : Owned g inside l c q := by
  rcases hq with ⟨f, hf, hin⟩ | hgate
  · exact .inl ⟨f, ⟨hf, fun k hk => eq_of_inside hr hs hf hin hk ▸ String.le_refl _⟩, hin⟩
  · exact .inr hgate

theorem inside_of_flow (hs : Sound g c) (hq : InScope g inside l c q)
    (hf : c.flowPlaces.lookup f = some q) : inside (g.flow f).process := by
  rcases hq with ⟨k, hk, hin⟩ | ⟨hgate, _⟩
  · exact eq_of_inside hr hs hk hin hf ▸ hin
  · exact absurd hgate (hs.plain f q hf)

/-- A way that leads to a flow inside starts from one inside, or it enters the region. -/
theorem Way.from_inside {w : Way} {name : String} (hfits : w.Fits g) (hname : w.Named g name)
    (hf : index f < g.flows.size) (hk : index k < g.flows.size) (hgives : w.Gives g f)
    (htakes : w.Takes g k) (hin : inside (g.flow f).process) :
    name = entryName (g.node n).id (g.node n).process ∨ inside (g.flow k).process := by
  have hsource := (hr.confined.source f hf).1 hin
  have htarget := hr.confined.target k hk
  cases w with
  | through m =>
    rw [Gives] at hgives
    rw [Takes] at htakes
    exact .inr (htarget.2 (htakes ▸ hgives ▸ hsource))
  | aside task event =>
    rw [Gives] at hgives
    rw [Takes] at htakes
    obtain ⟨htask, trigger, hevent⟩ := hfits
    refine .inr (htarget.2 (htakes ▸ (hr.confined.event event task trigger hevent ?_).1
      (hgives ▸ hsource)))
    rw [htask]
    rfl
  | into m =>
    rw [Gives] at hgives
    rw [Takes] at htakes
    rw [hgives.1] at hsource
    rcases hr.up m hfits hsource with rfl | hsource
    · exact .inl hname
    · exact .inr (htarget.2 (htakes ▸ hsource))
  | outOf m =>
    rw [Gives] at hgives
    rw [Takes] at htakes
    exact .inr (htarget.2 (htakes.1 ▸ hr.down m hfits (hgives ▸ hsource)))
  | skip m =>
    rw [Gives] at hgives
    rw [Takes] at htakes
    exact .inr (htarget.2 (htakes.1 ▸ hr.down m hfits (hgives ▸ hsource)))
  | stop =>
    have hroot := (kind_of_entersRootEnd hgives).2
    exact absurd (hroot ▸ (hr.confined.target f hf).1 hin) hr.root

end Region

theorem isActivity_of_isSubprocess {kind : NodeKind} (h : kind.isSubprocess) : kind.isActivity := by
  cases kind <;> first | rfl | cases h

/-! ## What fills a scope -/

/-- The transition is that of an event on one of the subprocesses inside. -/
def Eventful (g : ProcessGraph) (inside : String → Prop) (l : List JoinedSubprocess)
    (c : Construction) (t : TransitionId) : Prop :=
  ∃ s ∈ l, inside s.id ∧ ∃ m ∈ g.boundaryEventsOf s.id,
    c.Bears t (boundaryName (g.node m).id s.parent)

/-- Tokens come into the scope by the entry, from within or by an event of it. -/
def Contained (g : ProcessGraph) (n : NodeId) (inside : String → Prop) (l : List JoinedSubprocess)
    (c : Construction) : Prop :=
  ∀ t q, InScope g inside l c q → Arc.output t q ∈ c.net.arcs →
    c.Bears t (entryName (g.node n).id (g.node n).process) ∨
    (∃ p, InScope g inside l c p ∧ Arc.input p t ∈ c.net.arcs) ∨ Eventful g inside l c t

/-- The subprocesses that may be worked on are joined, and told by their entries. -/
structure Known (g : ProcessGraph) (P : Permit) (l : List JoinedSubprocess) (c : Construction) :
    Prop where
  mem : ∀ s, P.sub s → s ∈ l
  wired : ∀ s, P.sub s → ∃ m, Wired g m s c
  enter : ∀ s ∈ l, ∀ r ∈ l, s.enter = r.enter → s = r

theorem Known.stitched (hk : Known g P l c) (h : Stitches g P c c') : Known g P l c' :=
  { hk with
    wired := fun s hs => by
      obtain ⟨m, hw⟩ := hk.wired s hs
      exact ⟨m, hw.stitched h⟩ }

/-- A gate that an entry opens was opened before, or it is opened for a subprocess that is worked on. -/
theorem Stitch.opened_back (h : Stitch g P c c') (hs : Sound g c) (hl : Known g P l c)
    (hgate : IsGate c' q) (hopened : ∃ s ∈ l, inside s.id ∧ Arc.output s.enter q ∈ c'.net.arcs) :
    (IsGate c q ∧ ∃ s ∈ l, inside s.id ∧ Arc.output s.enter q ∈ c.net.arcs) ∨
      ∃ s x, P.sub s ∧ inside s.id ∧ c.net.place? q = some x ∧ x.role = .boundaryGate ∧
        x.process = s.id ∧ ∀ t, Arc.output t q ∈ c'.net.arcs → t = s.enter := by
  obtain ⟨s, hsl, hin, ha⟩ := hopened
  rcases h.isGate_back hgate with hgate | ⟨_, hfresh, harcs⟩
  · rcases h.output_back ha with ha | hnew
    · exact .inl ⟨hgate, s, hsl, hin, ha⟩
    · cases hnew with
      | step _ _ _ _ _ _ hf => exact absurd hgate (hs.plain _ q hf)
      | leave _ _ _ hf => exact absurd hgate (hs.plain _ q hf)
      | merge _ hf => exact absurd hgate (hs.plain _ q hf)
      | @opens r x hr henter hx hrole hprocess _ hsole =>
        have he := hl.enter s hsl r (hl.mem r hr) henter
        exact .inr ⟨r, x, hr, he ▸ hin, hx, hrole, hprocess, fun t ht => (hsole t ht).trans henter⟩
  · exact absurd rfl (hs.valid.consistent.place_ne hfresh (harcs ▸ ha))

theorem Stitch.inScope_back (h : Stitch g P c c') (hs : Sound g c) (hl : Known g P l c)
    (hq : InScope g inside l c' q) :
    InScope g inside l c q ∨ ∃ s x, P.sub s ∧ inside s.id ∧ c.net.place? q = some x ∧
      x.role = .boundaryGate ∧ x.process = s.id ∧ (∀ t, Arc.output t q ∈ c'.net.arcs → t = s.enter) := by
  rcases hq with ⟨f, hf, hin⟩ | ⟨hgate, hopened⟩
  · exact .inl (.inl ⟨f, h.flowPlaces ▸ hf, hin⟩)
  · exact (h.opened_back hs hl hgate hopened).imp_left .inr

theorem Stitch.owned_back (h : Stitch g P c c') (hs : Sound g c) (hl : Known g P l c)
    (hq : Owned g inside l c' q) :
    Owned g inside l c q ∨ ∃ s x, P.sub s ∧ inside s.id ∧ c.net.place? q = some x ∧
      x.process = s.id := by
  rcases hq with ⟨f, hf, hin⟩ | ⟨hgate, hopened⟩
  · exact .inl (.inl ⟨f, by rwa [MadeFor, h.flowPlaces] at hf, hin⟩)
  · rcases h.opened_back hs hl hgate hopened with hold | ⟨s, x, hsub, hin, hx, _, hprocess, _⟩
    · exact .inl (.inr hold)
    · exact .inr ⟨s, x, hsub, hin, hx, hprocess⟩

theorem Stitch.contained (hr : g.Region n inside) (h : Stitch g P c c') (hs : Sound g c)
    (hs' : Sound g c') (hl : Known g P l c) (hc : Contained g n inside l c) :
    Contained g n inside l c' := by
  have hst : Stitches g P c c' := .of h hs'.valid
  have hflows := h.flowPlaces
  have hkept : ∀ t q, InScope g inside l c q → Arc.output t q ∈ c.net.arcs →
      c'.Bears t (entryName (g.node n).id (g.node n).process) ∨
      (∃ p, InScope g inside l c' p ∧ Arc.input p t ∈ c'.net.arcs) ∨ Eventful g inside l c' t := by
    intro t q hq ha
    rcases hc t q hq ha with hbears | ⟨p, hp, hin⟩ | ⟨s, hsl, hin, m, hm, hbears⟩
    · exact .inl (hst.bears hbears)
    · exact .inr (.inl ⟨p, hst.inScope hs hp, hst.input_kept hin⟩)
    · exact .inr (.inr ⟨s, hsl, hin, m, hm, hst.bears hbears⟩)
  intro t q hq ha
  rcases h.inScope_back hs hl hq with hold | ⟨s, x, hsub, hin, _, _, _, hsole⟩
  · rcases h.output_back ha with ha | hnew
    · exact hkept t q hold ha
    · have hinside : ∀ f, c.flowPlaces.lookup f = some q → inside (g.flow f).process :=
        fun f hf => inside_of_flow hr hs hold hf
      cases hnew with
      | step w _ hfits hname hx _ hf hgives hk htakes harc =>
        rcases Way.from_inside hr hfits hname (hs.bound _ _ hf) (hs.bound _ _ hk) hgives htakes
          (hinside _ hf) with henter | hin
        · exact .inl ⟨_, hx, henter⟩
        · exact .inr (.inl ⟨_, .inl ⟨_, hflows ▸ hk, hin⟩, harc⟩)
      | @leave s m f hsub hm hbears hf hsource =>
        refine .inr (.inr ⟨s, hl.mem s hsub, ?_, m, hm, hst.bears hbears⟩)
        obtain ⟨j, hw⟩ := hl.wired s hsub
        obtain ⟨_, trigger, hkind⟩ := mem_boundaryEventsOf.1 hm
        have hsource' := (hr.confined.source f (hs.bound f q hf)).1 (hinside f hf)
        rw [hw.joined.id] at hkind ⊢
        exact hr.down j hw.kind ((hr.confined.event m j trigger hkind
          (isActivity_of_isSubprocess hw.kind)).1 (hsource ▸ hsource'))
      | opens _ _ hx hrole _ hnone =>
        rcases hold with ⟨f, hf, _⟩ | ⟨_, r, _, _, ha⟩
        · exact absurd ⟨_, hx, hrole⟩ (hs.plain f q hf)
        · exact absurd ha (hnone r.enter)
      | merge _ hf hfr hk hkr ha =>
        have htarget := (hr.confined.target _ (hs.bound _ _ hf)).1 (hinside _ hf)
        refine hkept t _ (.inl ⟨_, hk, (hr.confined.target _ (hs.bound _ _ hk)).2 ?_⟩) ha
        rw [hkr.1, ← hfr.1]
        exact htarget
  · -- The entry of a subprocess inside is that of the region, or what leads to it lies inside.
    obtain rfl := hsole t ha
    obtain ⟨j, hw⟩ := hl.wired s hsub
    rw [hw.joined.id] at hin
    rcases hr.up j hw.kind hin with rfl | hin
    · refine .inl (hst.bears ?_)
      rw [← hw.joined.id, ← hw.joined.parent]
      exact hw.joined.enter
    · obtain ⟨f, p, hf, htarget, harc⟩ := hw.front
      refine .inr (.inl ⟨p, .inl ⟨f, hflows ▸ hf, ?_⟩, hst.input_kept harc⟩)
      exact (hr.confined.target f (hs.bound f p hf)).2 (htarget ▸ hin)

theorem Stitches.contained (hr : g.Region n inside) (h : Stitches g P c c') (hs : Sound g c)
    (hl : Known g P l c) (hc : Contained g n inside l c) : Contained g n inside l c' := by
  induction h with
  | refl => exact hc
  | tail h₁ hstep ih =>
    have hs₁ := Stitches.sound h₁ hs
    exact hstep.1.contained hr hs₁ (hstep.1.sound hstep.2 hs₁) (hl.stitched h₁) ih

/-! ## What transitions take -/

/-- Each transition takes from some place, or it is that of an event. -/
def Driven (g : ProcessGraph) (l : List JoinedSubprocess) (c : Construction) : Prop :=
  ∀ t, c.net.hasTransition t → (∃ p, Arc.input p t ∈ c.net.arcs) ∨ Eventful g (fun _ => True) l c t

theorem Stitch.driven (h : Stitch g P c c') (hc' : c'.Valid) (hl : ∀ s, P.sub s → s ∈ l)
    (hc : Driven g l c) : Driven g l c' := by
  have hst : Stitches g P c c' := .of h hc'
  -- input arcs are never removed, so only a new transition needs a place to take from
  have hkept : ∀ t, c.net.hasTransition t →
      (∃ p, Arc.input p t ∈ c'.net.arcs) ∨ Eventful g (fun _ => True) l c' t := by
    intro t ht
    rcases hc t ht with ⟨p, ha⟩ | ⟨s, hs, hin, m, hm, hbears⟩
    · exact .inl ⟨p, h.input_kept ha⟩
    · exact .inr ⟨s, hs, hin, m, hm, hst.bears hbears⟩
  intro t ht
  cases h with
  | @step w x inputs outputs u _ _ _ _ _ hne _ _ hadd =>
    by_cases htu : t = u
    · obtain ⟨p, hp⟩ := List.exists_mem_of_ne_nil _ hne
      exact .inl ⟨p, (hadd.mem_arcs _).2 (.inl ⟨p, hp, by rw [htu]⟩)⟩
    · rw [hasTransition, hadd.transition?, if_neg htu] at ht
      exact hkept t ht
  | @event s m x u _ hs hm hname _ hadd =>
    by_cases htu : t = u
    · refine .inr ⟨s, hl s hs, trivial, m, hm, x, ?_, hname⟩
      exact (hadd.transition? t).trans (if_pos htu)
    · rw [hasTransition, hadd.transition?, if_neg htu] at ht
      exact hkept t ht
  | gate _ _ _ _ hadd =>
    rw [hasTransition, hadd.transition?] at ht
    exact hkept t ht
  | arc _ hadd =>
    rw [hadd.nodes.hasTransition] at ht
    exact hkept t ht
  | drop _ _ _ _ hgone =>
    rw [hasTransition, hgone.transition?] at ht
    exact hkept t ht
  | absorb s =>
    refine hkept t ?_
    rw [hasTransition, absorbed, transition?_mapNodes, Option.isSome_map] at ht
    exact ht
  | mark | finish => exact hkept t ht

theorem Stitches.driven (h : Stitches g P c c') (hl : ∀ s, P.sub s → s ∈ l) (hc : Driven g l c) :
    Driven g l c' := by
  induction h with
  | refl => exact hc
  | tail _ hstep ih => exact hstep.1.driven hstep.2 hl ih

/-- What takes from a terminate end is silent. -/
def Quiet (g : ProcessGraph) (c : Construction) : Prop :=
  ∀ f p t x, c.flowPlaces.lookup f = some p →
    (g.node (g.flow f).target).kind = .endEvent .terminate → Arc.input p t ∈ c.net.arcs →
    c.net.transition? t = some x → x.label = none

/-- From a terminate end a token only gets out of the subprocess, or to the sink. -/
theorem Way.eq_of_terminate {w : Way} (hfits : w.Fits g) (htakes : w.Takes g f)
    (hkind : (g.node (g.flow f).target).kind = .endEvent .terminate) :
    (∃ m, w = .skip m) ∨ w = .stop := by
  cases w with
  | through m =>
    rw [Takes] at htakes
    rw [Fits, ← htakes, hkind] at hfits
    exact hfits.elim
  | aside task event =>
    rw [Takes] at htakes
    have htask := hfits.1
    rw [← htakes, hkind] at htask
    cases htask
  | into m =>
    rw [Takes] at htakes
    rw [Fits, ← htakes, hkind] at hfits
    cases hfits
  | outOf m =>
    have hnormal := htakes.2
    rw [hkind] at hnormal
    cases hnormal
  | skip m => exact .inl ⟨m, rfl⟩
  | stop => exact .inr rfl

theorem Way.isSilent_of_terminate {w : Way} (hfits : w.Fits g) (htakes : w.Takes g f)
    (hkind : (g.node (g.flow f).target).kind = .endEvent .terminate) : w.isSilent := by
  obtain ⟨m, rfl⟩ | rfl := eq_of_terminate hfits htakes hkind <;> rfl

theorem Stitch.quiet (h : Stitch g P c c') (hs : Sound g c) (hq : Quiet g c) : Quiet g c' := by
  intro f p t x hf hkind ha hx
  rw [h.flowPlaces] at hf
  have hnormal : (g.node (g.flow f).target).kind ≠ .endEvent .normal := by
    rw [hkind]
    exact fun he => by cases he
  rcases h.input_back ha with ha | hnew
  · have hlive : c.net.hasTransition t := hs.valid.consistent.liveTransition _ ha
    obtain ⟨x₀, hx₀⟩ := hasTransition_iff.1 hlive
    obtain ⟨x', hx', _, hlabel⟩ := h.transition? hx₀
    rw [hx] at hx'
    cases hx'
    rw [hlabel]
    exact hq f p t x₀ hf hkind ha hx₀
  · cases hnew with
    | step w _ hfits hlabel hk htakes _ hx' =>
      have hkf := hs.eq_of_kind hf hk hnormal
      rw [hx] at hx'
      cases hx'
      exact hlabel (Way.isSilent_of_terminate hfits (hkf ▸ htakes) hkind)
    | «catch» _ hk hraising =>
      obtain ⟨_, trigger, hinternal, hkind'⟩ := hraising
      rw [hs.eq_of_kind hf hk hnormal, hkind] at hkind'
      cases trigger <;> cases hkind'
    | closes _ hgate => exact absurd hgate (hs.plain f p hf)

theorem Stitches.quiet (h : Stitches g P c c') (hs : Sound g c) (hq : Quiet g c) : Quiet g c' := by
  induction h with
  | refl => exact hq
  | tail h₁ hstep ih => exact hstep.1.quiet (Stitches.sound h₁ hs) ih

/-- As `addResets` takes care of, no transition resets what it takes from, and none needs a place to be
empty. -/
structure Orderly (c : Construction) : Prop where
  apart : ∀ p t, Arc.input p t ∈ c.net.arcs → Arc.reset p t ∉ c.net.arcs
  uninhibited : ∀ p t, Arc.inhibitor p t ∉ c.net.arcs

theorem Orderly.of_subset (h : ∀ a ∈ c'.net.arcs, a ∈ c.net.arcs) (ho : Orderly c) : Orderly c' where
  apart p t hin hreset := ho.apart p t (h _ hin) (h _ hreset)
  uninhibited p t ha := ho.uninhibited p t (h _ ha)

theorem Stitch.orderly (h : Stitch g P c c') (hc : c.Valid) (ho : Orderly c) : Orderly c' := by
  cases h with
  | @step w _ _ _ _ n _ _ _ _ _ _ _ hadd =>
    have hold : ∀ {a : Arc}, a.kind = .reset ∨ a.kind = .inhibitor → a ∈ n.arcs → a ∈ c.net.arcs := by
      intro a hkind ha
      rcases (hadd.mem_arcs a).1 ha with ⟨_, _, rfl⟩ | ⟨_, _, rfl⟩ | ha
      · rcases hkind with hkind | hkind <;> cases hkind
      · rcases hkind with hkind | hkind <;> cases hkind
      · exact ha
    refine ⟨fun p u hin hreset => ?_, fun p u ha => ho.uninhibited p u (hold (.inr rfl) ha)⟩
    have hreset := hold (.inl rfl) hreset
    rcases (hadd.mem_arcs _).1 hin with ⟨_, _, he⟩ | ⟨_, _, he⟩ | hin
    · -- The transition is new, so it did not reset anything.
      cases he
      exact absurd rfl (hc.consistent.transition_ne hadd.fresh hreset)
    · cases he
    · exact ho.apart p u hin hreset
  | event _ _ _ _ hadd => exact ho.of_subset fun _ ha => hadd.arcs ▸ ha
  | gate _ _ _ _ hadd => exact ho.of_subset fun _ ha => hadd.arcs ▸ ha
  | arc hlaid hadd =>
    refine ⟨fun p u hin hreset => ?_, fun p u ha => ?_⟩
    · rcases (hadd.mem_arcs _).1 hin with rfl | hin
      · rcases (hadd.mem_arcs _).1 hreset with he | hreset
        · cases he
        · cases hlaid with
          | «catch» _ _ _ _ _ _ hnone => exact hnone p hreset
          | closes _ _ _ hnone => exact hnone u hreset
      · rcases (hadd.mem_arcs _).1 hreset with rfl | hreset
        · cases hlaid with
          | reset hnone => exact hnone hin
        · exact ho.apart p u hin hreset
    · rcases (hadd.mem_arcs _).1 ha with rfl | ha
      · cases hlaid
      · exact ho.uninhibited p u ha
  | drop _ _ _ _ hgone => exact ho.of_subset fun _ ha => ((hgone.mem_arcs _).1 ha).1
  | absorb | mark | finish => exact ⟨ho.apart, ho.uninhibited⟩

theorem Stitches.orderly (h : Stitches g P c c') (hc : c.Valid) (ho : Orderly c) : Orderly c' := by
  induction h with
  | refl => exact ho
  | tail h₁ hstep ih => exact hstep.1.orderly (Stitches.valid h₁ hc) ih

/-! ## What takes from ends -/

/-- The flow enters an end of the process that clears it. -/
def Ending (g : ProcessGraph) (f : FlowId) (process : String) : Prop :=
  Terminating g f process ∨ Raising g f process

theorem Ending.process {process : String} (h : Ending g f process) :
    (g.node (g.flow f).target).process = process := h.elim (·.1) (·.1)

theorem Ending.ne_normal {process : String} (h : Ending g f process) :
    (g.node (g.flow f).target).kind ≠ .endEvent .normal :=
  h.elim Terminating.ne_normal Raising.ne_normal

/-- Where no way takes from the flows of a place and no event is raised by them, it has no consumers. -/
theorem Stitches.no_input (h : Stitches g P c c') (hs : Sound g c) (hf : c.flowPlaces.lookup f = some p)
    (hway : ∀ w, P.way w → w.Fits g → ∀ k, c.flowPlaces.lookup k = some p → ¬ w.Takes g k)
    (hsub : ∀ s, P.sub s → ∀ k, c.flowPlaces.lookup k = some p → ¬ Raising g k s.id)
    (hnone : ∀ t, Arc.input p t ∉ c.net.arcs) : ∀ t, Arc.input p t ∉ c'.net.arcs := by
  induction h with
  | refl => exact hnone
  | tail h₁ hstep ih =>
    intro t ha
    rw [← Stitches.flowPlaces h₁] at hf hway hsub
    rcases hstep.1.input_back ha with ha | hnew
    · exact ih t ha
    · cases hnew with
      | step w hw hfits _ hk htakes => exact hway w hw hfits _ hk htakes
      | «catch» hs' hk hraising => exact hsub _ hs' _ hk hraising
      | closes _ hgate => exact (Stitches.sound h₁ hs).plain f p hf hgate

/-- What takes from the ends in `ends` leads to the flows in `there`, whatever it is. -/
structure Outlet (g : ProcessGraph) (ends there : FlowId → Prop) : Prop where
  ne_normal : ∀ f, ends f → (g.node (g.flow f).target).kind ≠ .endEvent .normal
  way : ∀ (w : Way) f k, w.Fits g → ends f → w.Takes g f → index k < g.flows.size → w.Gives g k →
    there k
  escape : ∀ c s f k q, Sound g c → ends f → Raising g f s.id → c.flowPlaces.lookup k = some q →
    Escapes g c s k → there k
  merge : ∀ process f k, index f < g.flows.size → index k < g.flows.size → Raising g f process →
    Raising g k process → there k → there f

/-- No entry takes from these ends, and what does leads to these flows. -/
def Leaving (l : List JoinedSubprocess) (ends there : FlowId → Prop)
    (c : Construction) : Prop :=
  ∀ f p t, c.flowPlaces.lookup f = some p → ends f → Arc.input p t ∈ c.net.arcs →
    (∀ s ∈ l, t ≠ s.enter) ∧
      ∀ q, Arc.output t q ∈ c.net.arcs → ∃ k, c.flowPlaces.lookup k = some q ∧ there k

section Leaving

variable {ends there : FlowId → Prop} (ho : Outlet g ends there)
include ho

theorem Stitch.leaving (h : Stitch g P c c') (hs : Sound g c) (hl : ∀ s, P.sub s → s ∈ l)
    (henter : ∀ s ∈ l, ∃ p, Arc.input p s.enter ∈ c.net.arcs) (hc : Leaving l ends there c) :
    Leaving l ends there c' := by
  intro f p t hf hend ha
  rw [h.flowPlaces] at hf ⊢
  rcases h.input_back ha with ha | hnew
  · obtain ⟨hne, hleads⟩ := hc f p t hf hend ha
    refine ⟨hne, fun q hout => ?_⟩
    rcases h.output_back hout with hout | hnew
    · exact hleads q hout
    · cases hnew with
      | step _ _ _ _ _ hfresh => exact absurd rfl (hs.valid.consistent.transition_ne hfresh ha)
      | leave _ _ _ _ _ hunfed => exact absurd ha (hunfed p)
      | opens hsub he => exact absurd he (hne _ (hl _ hsub))
      | @merge s i j r _ hi hir hj hjr harc =>
        obtain ⟨k, hk, hthere⟩ := hleads r harc
        have hkj := hs.eq_of_kind hj hk hjr.ne_normal
        exact ⟨i, hi, ho.merge s.id i j (hs.bound i q hi) (hs.bound j r hj) hir hjr (hkj ▸ hthere)⟩
  · -- Of what is new, only ways and the events that ends raise take from ends.
    cases hnew with
    | step w _ hfits _ hj htakes hfresh _ hleads =>
      have hunknown : ∀ a ∈ c.net.arcs, a.transition ≠ t := fun _ =>
        hs.valid.consistent.transition_ne hfresh
      have hjf := hs.eq_of_kind hf hj (ho.ne_normal f hend)
      refine ⟨fun s hsl he => ?_, fun q hq => ?_⟩
      · obtain ⟨r, harc⟩ := henter s hsl
        exact hunknown _ harc he.symm
      · rcases hleads q hq with harc | ⟨k, hk, hgives⟩
        · exact absurd rfl (hunknown _ harc)
        · exact ⟨k, hk, ho.way w f k hfits hend (hjf ▸ htakes) (hs.bound k q hk) hgives⟩
    | @«catch» s j _ hj hraising _ hunfed hleads =>
      have hjf := hs.eq_of_kind hf hj (ho.ne_normal f hend)
      refine ⟨fun r hrl he => ?_, fun q hq => ?_⟩
      · obtain ⟨r, harc⟩ := henter r hrl
        exact hunfed r (he ▸ harc)
      · obtain ⟨k, hk, hescapes⟩ := hleads q hq
        exact ⟨k, hk, ho.escape c s f k q hs hend (hjf ▸ hraising) hk hescapes⟩
    | closes _ hgate => exact absurd hgate (hs.plain f p hf)

theorem Stitches.leaving (h : Stitches g P c c') (hs : Sound g c) (hl : ∀ s, P.sub s → s ∈ l)
    (henter : ∀ s ∈ l, ∃ p, Arc.input p s.enter ∈ c.net.arcs) (hc : Leaving l ends there c) :
    Leaving l ends there c' := by
  induction h with
  | refl => exact hc
  | tail h₁ hstep ih =>
    refine hstep.1.leaving ho (Stitches.sound h₁ hs) hl (fun s hsl => ?_) ih
    obtain ⟨p, ha⟩ := henter s hsl
    exact ⟨p, Stitches.input_kept h₁ ha⟩

end Leaving

/-- What an event on the subprocess of the region leads to lies outside. -/
theorem Escapes.outside (hr : g.Region n inside) (hs : Sound g c) (hid : s.id = (g.node n).id)
    (hk : c.flowPlaces.lookup k = some q) (h : Escapes g c s k) : ¬ inside (g.flow k).process := by
  have hevent : ∀ m ∈ g.boundaryEventsOf s.id, ¬ inside (g.node m).process := by
    intro m hm hin
    obtain ⟨_, trigger, hkind⟩ := mem_boundaryEventsOf.1 hm
    rw [hid] at hkind
    exact hr.outer ((hr.confined.event m n trigger hkind
      (isActivity_of_isSubprocess hr.subprocess)).1 hin)
  rcases h with hsource | ⟨j, r, hj, hsource, hraising⟩
  · exact fun hin => hevent _ hsource ((hr.confined.source k (hs.bound k q hk)).1 hin)
  · -- A flow from such an event to an end inside would cross the border.
    refine absurd ((hr.confined.source j (hs.bound j r hj)).1 ?_) (hevent _ hsource)
    rw [hr.confined.target j (hs.bound j r hj), hraising.1, hid]
    exact hr.self

/-- What takes from the ends of a subprocess leads out of its region. -/
theorem outlet_of_region (hd : g.Distinct) (hr : g.Region n inside) :
    Outlet g (fun f => Ending g f (g.node n).id) fun k => ¬ inside (g.flow k).process where
  ne_normal _ := Ending.ne_normal
  way w f k hfits hend htakes hk hgives := by
    rcases hend with ⟨hprocess, hkind⟩ | hraising
    · obtain ⟨m, rfl⟩ | rfl := Way.eq_of_terminate hfits htakes hkind
      · have hm : m = n := hd.node _ _ (lt_of_isSubprocess hfits) (lt_of_isSubprocess hr.subprocess)
          (htakes.1.symm.trans hprocess)
        intro hin
        have hsource := (hr.confined.source k hk).1 hin
        rw [Way.Gives] at hgives
        rw [hgives, hm] at hsource
        exact hr.outer hsource
      · refine absurd hr.self ?_
        rw [← hprocess, htakes.1]
        exact hr.root
    · exact absurd htakes (Way.not_takes hfits hraising)
  escape c s f k q hs hend hraising hk hescapes :=
    hescapes.outside hr hs (hraising.1.symm.trans hend.process) hk
  merge process f k hf hk hfr hkr hnot := by
    rw [hr.confined.target f hf, hfr.1]
    rwa [hr.confined.target k hk, hkr.1] at hnot

/-- What takes from the terminate ends of the root process leads to its sink. -/
theorem outlet_of_root (happart : ∀ m, (g.node m).kind.isSubprocess → (g.node m).id ≠ g.processId) :
    Outlet g (fun f => Terminating g f g.processId) fun k => entersRootEnd g (g.flow k) where
  ne_normal _ := Terminating.ne_normal
  way w f k hfits hend htakes _ hgives := by
    obtain ⟨hprocess, hkind⟩ := hend
    obtain ⟨m, rfl⟩ | rfl := Way.eq_of_terminate hfits htakes hkind
    · exact absurd (htakes.1.symm.trans hprocess) (happart m hfits)
    · exact hgives
  escape _ _ _ _ _ _ hend hraising _ _ := by
    obtain ⟨_, trigger, hinternal, hkind⟩ := hraising
    rw [hend.2] at hkind
    cases trigger <;> cases hkind
  merge _ _ _ _ _ _ hkr hroot := absurd (kind_of_entersRootEnd hroot).1 hkr.ne_normal

/-! ## What is marked -/

/-- As `addNode` takes care of, only flows behind nodes of the root process are marked. -/
def Marked (g : ProcessGraph) (c : Construction) : Prop :=
  ∀ p, 0 < c.initial.tokens p → ∃ f, c.flowPlaces.lookup f = some p ∧
    (g.node (g.flow f).source).process = g.processId

theorem Stitch.marked (h : Stitch g P c c') (hm : Marked g c) : Marked g c' := by
  cases h with
  | @mark f p m hf hsource hadd =>
    intro q hq
    rw [Marking.tokens_add hadd] at hq
    split at hq
    · rename_i he
      exact ⟨f, he ▸ hf, hsource⟩
    · exact hm q hq
  | step | event | gate | arc | drop | absorb | finish => exact hm

theorem Stitches.marked (h : Stitches g P c c') (hm : Marked g c) : Marked g c' := by
  induction h with
  | refl => exact hm
  | tail _ hstep ih => exact hstep.1.marked ih

/-- Nothing in a scope is marked. -/
theorem Marked.eq_zero (hr : g.Region n inside) (hs : Sound g c) (hm : Marked g c)
    (hq : InScope g inside l c q) : c.initial.tokens q = 0 := by
  refine Nat.eq_zero_of_not_pos fun hpos => ?_
  obtain ⟨f, hf, hsource⟩ := hm q hpos
  have hin := (hr.confined.source f (hs.bound f q hf)).1 (inside_of_flow hr hs hq hf)
  exact hr.root (hsource ▸ hin)

end ProcessNet.Construction
