/-
Joined subprocesses. The entry and the exits of a subprocess are live transitions that are told by their
names, one exit for each normal end in it, and they stay so.
-/
import ProcessNet.Proofs.Conversion.Effect
import ProcessNet.Proofs.Conversion.Lasting
import ProcessNet.Proofs.Process.Query

namespace ProcessNet

namespace ProcessGraph

/-- The normal end events directly in a process. -/
def normalEndsOf (g : ProcessGraph) (process : String) : List NodeId :=
  (g.endsOf process).filter fun n => (g.node n).kind = .endEvent .normal

theorem mem_normalEndsOf {g : ProcessGraph} {process : String} {m : NodeId} :
    m ∈ g.normalEndsOf process ↔
    Identifier.index m < g.nodes.size ∧ (g.node m).process = process ∧ (g.node m).kind = .endEvent .normal := by
  rw [normalEndsOf, List.mem_filter, mem_endsOf]
  constructor
  · rintro ⟨⟨hm, hprocess, _⟩, hkind⟩
    exact ⟨hm, hprocess, of_decide_eq_true hkind⟩
  · rintro ⟨hm, hprocess, hkind⟩
    exact ⟨⟨hm, hprocess, by rw [hkind]; rfl⟩, decide_eq_true hkind⟩

end ProcessGraph

namespace Construction

open Identifier Net

variable {F : Fence} {g : ProcessGraph} {n : NodeId} {c c' : Construction} {s : JoinedSubprocess}

def entryName (id parent : String) : String := joinName ["t-start-subprocess", id, parent]

/-- The part of `joinSubprocess` that adds an exit for each of the places. -/
def addExits (id parent : String) (behind : PlaceId) (ends : List PlaceId) :
    ConstructionM (List TransitionId) :=
  ends.zipIdx.mapM fun (p, k) =>
    addSilentStep (exitName id parent ends.length k) parent [p] [behind]

/-- The steps of `joinSubprocess`. -/
theorem joinSubprocess_eq_ok (h : joinSubprocess g n c = .ok s c') :
    s.id = (g.node n).id ∧ s.parent = (g.node n).process ∧ ∃ before starts ends c₁,
      inPlace g n c = .ok before c ∧ outPlace g n c = .ok s.outPlace c ∧
      List.Forall₂ (fun m p => outPlace g m c = .ok p c) (g.startsOf s.id) starts ∧
      List.Forall₂ (fun m p => inPlace g m c = .ok p c) (g.normalEndsOf s.id) ends ∧
      addSilentStep (entryName s.id s.parent) s.parent [before] starts c = .ok s.enter c₁ ∧
      addExits s.id s.parent s.outPlace ends c₁ = .ok s.exits c' := by
  unfold joinSubprocess at h
  obtain ⟨before, c₁, hbefore, h₁⟩ := bind_eq_ok.1 h
  obtain ⟨_, _, _, rfl⟩ := inPlace_eq_ok.1 hbefore
  obtain ⟨behind, c₂, hbehind, h₂⟩ := bind_eq_ok.1 h₁
  obtain ⟨_, _, _, rfl⟩ := outPlace_eq_ok.1 hbehind
  obtain ⟨starts, c₃, hstarts, h₃⟩ := bind_eq_ok.1 h₂
  obtain ⟨rfl, hstarts⟩ := mapM_outPlace_eq_ok hstarts
  obtain ⟨_, h₄⟩ := unless_eq_ok h₃
  obtain ⟨ends, c₄, hends, h₅⟩ := bind_eq_ok.1 h₄
  obtain ⟨rfl, hends⟩ := mapM_inPlace_eq_ok hends
  obtain ⟨_, h₆⟩ := unless_eq_ok h₅
  obtain ⟨enter, c₅, henter, h₇⟩ := bind_eq_ok.1 h₆
  obtain ⟨exits, c₆, hexits, h₈⟩ := bind_eq_ok.1 h₇
  cases h₈
  exact ⟨rfl, rfl, before, starts, ends, c₅, hbefore, hbehind, hstarts, hends, henter, hexits⟩

/-- The subprocess `n` is joined to its surroundings as `s`. -/
structure Joined (g : ProcessGraph) (n : NodeId) (s : JoinedSubprocess) (c : Construction) : Prop where
  id : s.id = (g.node n).id
  parent : s.parent = (g.node n).process
  behind : ∃ f, c.flowPlaces.lookup f = some s.outPlace
  enter : c.Bears s.enter (entryName s.id s.parent)
  exit : ∀ k < (g.normalEndsOf s.id).length,
    ∃ u ∈ s.exits, c.Bears u (exitName s.id s.parent (g.normalEndsOf s.id).length k)
  live : ∀ u ∈ s.exits, c.net.hasTransition u
  apart : s.enter ∉ s.exits

/-- The fence that only keeps flows from getting places. -/
def steady : Fence := ⟨fun _ => False, False, True⟩

theorem Valid.steady (hc : c.Valid) : Fenced steady c := hc.fenced fun _ => id

theorem Joined.kept (hs : Joined g n s c) (h : Edits F c c') (hc : c.Valid) (hF : ¬ F.registers) :
    Joined g n s c' where
  id := hs.id
  parent := hs.parent
  behind := by rw [h.flowPlaces_eq hF]; exact hs.behind
  enter := h.bears hc hs.enter
  exit k hk := by
    obtain ⟨u, hu, hbears⟩ := hs.exit k hk
    exact ⟨u, hu, h.bears hc hbears⟩
  live u hu := h.hasTransition hc (hs.live u hu)
  apart := hs.apart

theorem Joined.live_all (hs : Joined g n s c) : ∀ u ∈ s.enter :: s.exits, c.net.hasTransition u := by
  intro u hu
  rcases List.mem_cons.1 hu with rfl | hu
  · exact hs.enter.live
  · exact hs.live u hu

theorem addStep_bears {x : Transition} {inputs outputs : List PlaceId} {t : TransitionId} (hc : c.Valid)
    (h : addStep x inputs outputs c = .ok t c') :
    c.net.hasTransition t = false ∧ c'.Bears t x.name := by
  obtain ⟨n, rfl, hadded⟩ := addStep_effect hc.consistent h
  exact ⟨hadded.fresh, x, hadded.transition?_self, rfl⟩

/-- `addExits` gives the exits names of their own, and all of them are new when they are added. -/
theorem bears_of_addExits {id parent : String} {behind : PlaceId} {ends : List PlaceId}
    {exits : List TransitionId} (hc : c.Valid) (h : addExits id parent behind ends c = .ok exits c') :
    Edits steady c c' ∧ List.Forall₂ (fun e u => c.net.hasTransition u = false ∧
      c'.Bears u (exitName id parent ends.length e.2)) ends.zipIdx exits := by
  have hmakes : ∀ e : PlaceId × Nat, Makes steady (fun _ => True)
      (addSilentStep (exitName id parent ends.length e.2) parent [e.1] [behind]) :=
    fun e => makes_addStep (fun _ _ h => h) (fun _ _ h => h)
  obtain ⟨hwithin, hall⟩ := forall₂_of_mapM Within.refl Within.trans
    (fun e _ _ _ _ => (hmakes e).within) h
  refine ⟨hwithin hc.steady, hall.imp ?_⟩
  rintro e u ⟨d, d', h₁, hstep, h₂⟩
  have h₁ := h₁ hc.steady
  have hd := h₁.valid hc
  obtain ⟨hfresh, hbears⟩ := addStep_bears hd hstep
  have hd' := ((hmakes e).within hstep hd.steady).valid hd
  exact ⟨Bool.eq_false_iff.2 fun hlive => ne_of_hasTransition (h₁.hasTransition hc hlive) hfresh rfl,
    (h₂ hd'.steady).bears hd' hbears⟩

theorem joined_of_joinSubprocess (hc : c.Valid) (h : joinSubprocess g n c = .ok s c') :
    Joined g n s c' := by
  obtain ⟨hid, hparent, before, starts, ends, c₁, _, hbehind, _, hends, henter, hexits⟩ :=
    joinSubprocess_eq_ok h
  obtain ⟨f, _, hf, _⟩ := outPlace_eq_ok.1 hbehind
  obtain ⟨_, hbears⟩ := addStep_bears hc henter
  have h₁ := (makes_addStep (fun _ _ h => h) (fun _ _ h => h) (F := steady)).within henter
    hc.steady
  obtain ⟨h₂, hall⟩ := bears_of_addExits (h₁.valid hc) hexits
  refine ⟨hid, hparent, ?_, h₂.bears (h₁.valid hc) hbears, fun k hk => ?_, fun u hu => ?_,
    fun hmem => ?_⟩
  · exact ⟨f, by rw [Edits.flowPlaces_eq (h₁.trans h₂) id]; exact hf⟩
  · rw [hends.length_eq] at hk ⊢
    have hmem : (ends[k], k) ∈ ends.zipIdx :=
      List.mk_mem_zipIdx_iff_getElem?.2 (List.getElem?_eq_getElem hk)
    obtain ⟨u, hu, _, hname⟩ := exists_of_forall₂ hall hmem
    exact ⟨u, hu, hname⟩
  · obtain ⟨_, _, _, hname⟩ := exists_of_forall₂ hall.flip hu
    exact hname.live
  · obtain ⟨_, _, hfresh, _⟩ := exists_of_forall₂ hall.flip hmem
    exact ne_of_hasTransition hbears.live hfresh rfl

end Construction

end ProcessNet
