/-
Subprocesses hand over what belongs to them. All places and transitions belong to the root process or to a
subprocess that is left; a turn leaves nothing behind of its subprocess, and after the last turn everything
belongs to the root process.
-/
import ProcessNet.Proofs.Conversion.Finished

namespace ProcessNet.Construction

open Identifier Net ProcessGraph

variable {g : ProcessGraph} {P : Permit} {showEvents : Bool} {c c' : Construction} {f : FlowId}
  {m : NodeId} {s : JoinedSubprocess} {all l : List JoinedSubprocess} {nodes : List NodeId}
  {process : String}

/-- The process is the root process, or that of a subprocess that is left. -/
def Left (g : ProcessGraph) (l : List JoinedSubprocess) (process : String) : Prop :=
  process = g.processId ∨ ∃ r ∈ l, r.id = process

/-- All places and transitions belong to processes that are left. -/
structure Housed (g : ProcessGraph) (l : List JoinedSubprocess) (c : Construction) : Prop where
  place : ∀ p x, c.net.place? p = some x → Left g l x.process
  transition : ∀ t x, c.net.transition? t = some x → Left g l x.process

theorem Left.cons (h : Left g l process) : Left g (s :: l) process :=
  h.imp_right fun ⟨r, hr, hid⟩ => ⟨r, List.mem_cons_of_mem _ hr, hid⟩

theorem Left.root (h : Left g [] process) : process = g.processId :=
  h.resolve_right fun ⟨_, hr, _⟩ => List.not_mem_nil hr

/-! ## One stitch -/

/-- What is permitted is done for processes that are left, and nothing is handed over. -/
structure Staying (g : ProcessGraph) (l : List JoinedSubprocess) (P : Permit) : Prop where
  way : ∀ w f, P.way w → w.Fits g → index f < g.flows.size → w.Takes g f → Left g l (w.process g)
  sub : ∀ s, P.sub s → Left g l s.id ∧ Left g l s.parent
  absorbs : ¬ P.absorbs

theorem Stitch.housed (h : Stitch g P c c') (hs : Sound g c) (hP : Staying g l P)
    (hc : Housed g l c) : Housed g l c' := by
  -- What was there stays as it is, since nothing is handed over; so only what is new is looked at.
  cases h with
  | step w hw hfits hstep _ hne hin _ hadd =>
    refine ⟨fun p x hx => hc.place p x ((hadd.place? p).symm.trans hx), fun t x hx => ?_⟩
    replace hx := (hadd.transition? t).symm.trans hx
    split at hx
    · cases hx
      obtain ⟨p, hp⟩ := List.exists_mem_of_ne_nil _ hne
      obtain ⟨f, hf, htakes⟩ := hin p hp
      rw [hstep.process]
      exact hP.way w f hw hfits (hs.bound f p hf) htakes
    · exact hc.transition t x hx
  | event hsub _ _ hprocess hadd =>
    refine ⟨fun p x hx => hc.place p x ((hadd.place? p).symm.trans hx), fun t x hx => ?_⟩
    replace hx := (hadd.transition? t).symm.trans hx
    split at hx
    · cases hx
      exact hprocess ▸ (hP.sub _ hsub).2
    · exact hc.transition t x hx
  | gate hsub _ hprocess _ hadd =>
    refine ⟨fun p x hx => ?_, fun t x hx => hc.transition t x ((hadd.transition? t).symm.trans hx)⟩
    replace hx := (hadd.place? p).symm.trans hx
    split at hx
    · cases hx
      exact hprocess ▸ (hP.sub _ hsub).1
    · exact hc.place p x hx
  | arc _ hadd =>
    exact ⟨fun p x hx => hc.place p x ((hadd.nodes.place? p).symm.trans hx),
      fun t x hx => hc.transition t x ((hadd.nodes.transition? t).symm.trans hx)⟩
  | drop _ _ _ _ hgone =>
    refine ⟨fun p x hx => ?_, fun t x hx => hc.transition t x ((hgone.transition? t).symm.trans hx)⟩
    replace hx := (hgone.place? p).symm.trans hx
    split at hx
    · cases hx
    · exact hc.place p x hx
  | absorb _ habsorbs => exact absurd habsorbs hP.absorbs
  | mark | finish => exact ⟨hc.place, hc.transition⟩

theorem Stitches.housed (h : Stitches g P c c') (hs : Sound g c) (hP : Staying g l P)
    (hc : Housed g l c) : Housed g l c' := by
  induction h with
  | refl => exact hc
  | tail h₁ hstep ih => exact hstep.1.housed (Stitches.sound h₁ hs) hP ih

/-- By `absorb` a subprocess hands over all that belongs to it. -/
theorem Housed.absorbed (hc : Housed g (s :: l) c) (hparent : Left g l s.parent) :
    Housed g l (absorbed s c) := by
  have hrest : ∀ {process : String}, process ≠ s.id → Left g (s :: l) process → Left g l process := by
    rintro process hne (hroot | ⟨r, hr, hid⟩)
    · exact .inl hroot
    · rcases List.mem_cons.1 hr with rfl | hr
      · exact absurd hid.symm hne
      · exact .inr ⟨r, hr, hid⟩
  refine ⟨fun p x' hx' => ?_, fun t x' hx' => ?_⟩
  · obtain ⟨x, hx, rfl⟩ := Option.map_eq_some_iff.1 ((place?_mapNodes p).symm.trans hx')
    split
    · exact hparent
    · rename_i hne
      exact hrest hne (hc.place p x hx)
  · obtain ⟨x, hx, rfl⟩ := Option.map_eq_some_iff.1 ((transition?_mapNodes t).symm.trans hx')
    split
    · exact hparent
    · rename_i hne
      exact hrest hne (hc.transition t x hx)

/-! ## Before the turns -/

theorem Way.hasProcess {w : Way} (hr : g.Rooted) (hg : g.Linked) (hfits : w.Fits g)
    (hf : index f < g.flows.size) (htakes : w.Takes g f) : g.HasProcess (w.process g) := by
  cases w with
  | through m | into m | aside m _ => exact hr.node m (htakes ▸ hg.target f hf)
  | outOf m | skip m => exact hr.node m (lt_of_isSubprocess hfits)
  | stop => exact .inl rfl

theorem Prepared.left {ground : Construction} (h : Prepared g l ground c)
    (hp : g.HasProcess process) : Left g l process := by
  rcases hp with hroot | ⟨m, hm, rfl⟩
  · exact .inl hroot
  · obtain ⟨r, hr, hw⟩ := exists_record h.wired hm
    exact .inr ⟨r, hr, hw.joined.id⟩

theorem Prepared.housed {ground : Construction} (h : Prepared g l ground c) (hg : g.Linked)
    (hr : g.Rooted) : Housed g l c := by
  refine h.stitches.housed h.grounded.sound ⟨fun w f _ hfits hf htakes =>
    h.left (Way.hasProcess hr hg hfits hf htakes), fun _ => False.elim, id⟩
    ⟨fun p x hx => ?_, fun t x hx => ?_⟩
  · obtain ⟨f, hf⟩ := h.made.flow p (hasPlace_iff.2 ⟨x, hx⟩)
    obtain ⟨y, hy, hprocess⟩ := h.made.liesIn f p hf
    rw [hx] at hy
    cases hy
    rw [hprocess]
    exact h.left (hr.flow f (h.grounded.bound f p hf.1))
  · rw [h.grounded.transitions] at hx
    cases hx

/-! ## All turns -/

/-- A subprocess has its turn before the one that it belongs to. -/
theorem Queue.left_parent (hq : Queue g all (m :: nodes) (s :: l) c) (hr : g.Rooted) :
    Left g l s.parent := by
  obtain ⟨hw, _⟩ := List.forall₂_cons.1 hq.wired
  rw [hw.joined.parent]
  rcases hr.node m (lt_of_isSubprocess hw.kind) with hroot | ⟨k, hk, hid⟩
  · exact .inl hroot
  · rw [← hid]
    exact .inr (hq.exists_left hk (hr.layered.deeper m k hw.kind hk hid.symm))

theorem housed_of_turn (hg : g.Normal) (hr : g.Rooted) (hs : Sound g c)
    (hq : Queue g all (m :: nodes) (s :: l) c) (hc : Housed g (s :: l) c)
    (h : finish g showEvents s c = .ok () c') : Housed g l c' := by
  obtain ⟨hw, _⟩ := List.forall₂_cons.1 hq.wired
  obtain ⟨c₁, c₂, _, st₁, st₂, rfl, _⟩ :=
    stitches_finish hg hs hw (hq.mem s List.mem_cons_self) hq.live h
  have hparent := hq.left_parent hr
  -- Gates belong to the subprocess, and its events and the steps out of it to the one around it.
  have hown : ∀ r, r = s → Left g (s :: l) r.id ∧ Left g (s :: l) r.parent := by
    rintro r rfl
    exact ⟨.inr ⟨r, List.mem_cons_self, rfl⟩, hparent.cons⟩
  have hc₁ := st₁.housed hs ⟨fun _ _ => False.elim, hown, id⟩ hc
  have hc₂ := st₂.housed (st₁.sound hs) ⟨fun w _ hskip _ _ _ => ?_, fun _ => False.elim, id⟩ hc₁
  · exact hc₂.absorbed hparent
  · rw [hskip, Way.process, ← hw.joined.parent]
    exact hparent.cons

theorem housed_of_finishes (hg : g.Normal) (hr : g.Rooted) (hs : Sound g c)
    (hq : Queue g all nodes l c) (hc : Housed g l c)
    (h : l.forM (finish g showEvents) c = .ok () c') : Housed g [] c' := by
  induction nodes generalizing l c with
  | nil =>
    cases hq.wired
    cases h
    exact hc
  | cons m nodes ih =>
    obtain ⟨s, l, _, _, rfl⟩ := List.forall₂_cons_left_iff.1 hq.wired
    rw [List.forM] at h
    obtain ⟨_, c₁, hturn, hrest⟩ := bind_eq_ok.1 h
    have st := (stitches_of_turn hg hs hq hturn).1
    exact ih (st.sound hs) (hq.stitched st).tail (housed_of_turn hg hr hs hq hc hturn) hrest

/-- After `construct` all places and transitions belong to the root process. -/
theorem housed_of_construct (hg : g.Normal) (hr : g.Rooted)
    (h : construct g showEvents (start g) = .ok () c) : Housed g [] c := by
  obtain ⟨ground, c₁, c₂, l, hprep, hfinish, hroot⟩ := prepared_of_construct hg h
  have hs₁ := hprep.sound
  have hs₂ := (stitches_finishes hg hs₁ hprep.queue hfinish).1.sound hs₁
  have hc₂ := housed_of_finishes hg hr hs₁ hprep.queue (hprep.housed hg.linked hr) hfinish
  refine (stitches_terminateRoot hg hs₂ hroot).1.housed hs₂ ⟨fun w _ hstop _ _ _ => ?_,
    fun _ => False.elim, id⟩ hc₂
  rw [hstop]
  exact .inl rfl

end ProcessNet.Construction
