/-
Constructions for graphs that were built. What holds of finished constructions is told here by the graph
that was declared: its subprocesses by their names, the scope of each of them by the processes inside it.
In each scope, ends that clear it leave nothing else behind, provided that the last firing that puts a
token on one of them decides.
-/
import ProcessNet.Proofs.Conversion.Finished

namespace ProcessNet

namespace Construction

open Identifier Net ProcessGraph

variable {g normal : ProcessGraph} {c : Construction} {p q : PlaceId} {t : TransitionId}
  {n m : NodeId} {s : JoinedSubprocess} {l : List JoinedSubprocess} {raised : List PlaceId}

/-! ## Scopes by the names of entries -/

/-- The live place is that of a flow inside the subprocess `n`, or a gate that the entry of a subprocess
in there opens. The flows are those of the graph in gateway form. -/
def ScopeOf (g normal : ProcessGraph) (n : NodeId) (c : Construction) (q : PlaceId) : Prop :=
  c.net.hasPlace q ∧
    ((∃ f, c.flowPlaces.lookup f = some q ∧ g.Inside n (normal.flow f).process) ∨
      IsGate c q ∧ ∃ m t, (g.node m).kind.isSubprocess ∧ g.Inside n (g.node m).id ∧
        c.net.bears (g.entryNames m) t ∧ Arc.output t q ∈ c.net.arcs)

theorem Wired.bears_entryNames_iff (hw : Wired normal m s c) (hrefines : Refines g normal)
    (hm : (g.node m).kind.isSubprocess) (hc : c.net.Consistent) :
    c.net.bears (g.entryNames m) t ↔ t = s.enter := by
  obtain ⟨hid, hprocess, _⟩ := hrefines.id_eq (lt_of_isSubprocess hm)
  have henter := hw.joined.enter
  rw [hw.joined.id, hw.joined.parent, hid, hprocess] at henter
  constructor
  · intro ht
    obtain ⟨name, hname, hbears⟩ := bears_of_bears ht
    exact hbears.unique hc (List.mem_singleton.1 hname ▸ henter)
  · rintro rfl
    exact henter.bears (List.mem_singleton.2 rfl)

theorem Finished.scopeOf_iff (hfin : Finished normal l c) (hrefines : Refines g normal) :
    ScopeOf g normal n c q ↔ Scoped normal (g.Inside n) l c q := by
  have hconsistent := hfin.sound.valid.consistent
  have hsub : ∀ m, (g.node m).kind.isSubprocess ↔ (normal.node m).kind.isSubprocess := fun m =>
    (hrefines.isSubprocess_iff m).symm
  refine and_congr_right fun _ => or_congr Iff.rfl (and_congr_right fun _ => ⟨?_, ?_⟩)
  · rintro ⟨m, t, hm, hin, ht, ha⟩
    obtain ⟨s, hsl, hw⟩ := exists_record hfin.wired ((hsub m).1 hm)
    obtain rfl := (hw.bears_entryNames_iff hrefines hm hconsistent).1 ht
    refine ⟨s, hsl, ?_, ha⟩
    rwa [hw.joined.id, (hrefines.id_eq (lt_of_isSubprocess hm)).1]
  · rintro ⟨s, hsl, hin, ha⟩
    obtain ⟨m, hw⟩ := hfin.exists_wired hsl
    have hm := (hsub m).2 hw.kind
    rw [hw.joined.id, (hrefines.id_eq (lt_of_isSubprocess hm)).1] at hin
    exact ⟨m, s.enter, hm, hin, (hw.bears_entryNames_iff hrefines hm hconsistent).2 rfl, ha⟩

/-- Each message on a subprocess has the transition and the gate that `addSubprocessBoundary` gave it. -/
theorem Finished.exists_awaited (hfin : Finished normal l c) (hrefines : Refines g normal)
    (hn : (g.node n).kind.isSubprocess) (hm : m ∈ g.messagesOf n) :
    ∃ s ∈ l, Wired normal n s c ∧ ∃ t p, Awaited normal l s m t p c ∧
      c.Bears t (boundaryName (g.node m).id (g.node n).process) := by
  have hlt := lt_of_isSubprocess hn
  obtain ⟨s, hsl, hw⟩ := exists_record hfin.wired ((hrefines.isSubprocess_iff n).2 hn)
  obtain ⟨hm', hkind⟩ := mem_messagesOf.1 ((hrefines.mem_messagesOf_iff hlt).2 hm)
  obtain ⟨_, hh⟩ := hfin.handled s hsl
  obtain ⟨t, p, ht⟩ := hh.message m
    (mem_boundaryEventsOf.2 ⟨hm', .message, by rw [hw.joined.id]; exact hkind⟩) ⟨_, hkind⟩
  have hbears := ht.bears
  rw [(hrefines.id_eq (mem_messagesOf.1 hm).1).1, hw.joined.parent, (hrefines.id_eq hlt).2.1]
    at hbears
  exact ⟨s, hsl, hw, t, p, ht, hbears⟩

/-- Ends of a subprocess that clear its scope: after a run that enters the subprocess at most once and
whose last firing that puts a token on one of them decides, a token on one of them means that nothing
else is left in the scope. -/
theorem Finished.swept_scope (hfin : Finished normal l c) (hrefines : Refines g normal)
    (hn : (g.node n).kind.isSubprocess) (hr : normal.Region n (g.Inside n))
    (hc : Closed normal n (g.Inside n) l s raised c) {own : PlaceId → Prop}
    (hown : ∀ p, own p → c.net.hasPlace p ∧
      ∃ f, c.flowPlaces.lookup f = some p ∧ Ending normal f (g.node n).id)
    (hclears : c.net.Clears (ScopeOf g normal n c) own) {ts : List TransitionId} {x : Tokens}
    (hrun : c.net.Run c.initial.tokens ts x) (honce : ts.countP (c.net.bears (g.entryNames n)) ≤ 1)
    (hlast : c.net.LastDecides (ScopeOf g normal n c) own c.initial.tokens ts) (hp : own p)
    (hmarked : 0 < x p) : Swept (ScopeOf g normal n c) own x := by
  obtain ⟨hid, hprocess, _⟩ := hrefines.id_eq (lt_of_isSubprocess hn)
  have hscope : ScopeOf g normal n c = Scoped normal (g.Inside n) l c :=
    funext fun q => propext (hfin.scopeOf_iff hrefines)
  rw [hscope] at hclears hlast ⊢
  refine hfin.swept hr hc (fun p hp => hid ▸ hown p hp) hclears (fun t ht => ?_) hrun honce hlast hp
    hmarked
  rw [hid, hprocess] at ht
  exact ht.bears (List.mem_singleton.2 rfl)

end Construction

namespace ProcessDeclaration

open Identifier Net Construction ProcessGraph

variable {d : ProcessDeclaration} {g normal : ProcessGraph} {c : Construction}

/-- What `construct` makes of a graph that was built is finished. -/
theorem finished_of_build {showEvents : Bool} (hbuild : d.build = .ok g)
    (hnormal : g.normalize = .ok normal)
    (h : construct normal showEvents (start normal) = .ok () c) : ∃ l, Finished normal l c := by
  obtain ⟨_, hd⟩ := declares_of_build hbuild
  have hrefines := refines_normalize hnormal
  refine finished_of_construct (normal_normalize hd.linked hd.distinct hnormal) (fun m hm => ?_) h
  have hm := (hrefines.isSubprocess_iff m).1 hm
  rw [(hrefines.id_eq (lt_of_isSubprocess hm)).1, hrefines.processId]
  exact (layered_of_build hbuild).apart m (lt_of_isSubprocess hm)

/-- The region of a subprocess in the gateway form of a graph that was built. -/
theorem region_of_build {n : NodeId} (hbuild : d.build = .ok g) (hnormal : g.normalize = .ok normal)
    (hn : (g.node n).kind.isSubprocess) (hsealed : g.Sealed n) : normal.Region n (g.Inside n) := by
  obtain ⟨_, hd⟩ := declares_of_build hbuild
  exact (region_of_sealed (layered_of_build hbuild) hd.distinct hn hsealed).normalize hd.linked
    hd.distinct hnormal

end ProcessDeclaration

end ProcessNet
