/-
Messages interrupt subprocesses. The transition of a message takes from its gate alone. It resets every
other live place that was made for a flow inside the subprocess, at any depth, and the gates of the other
messages on the subprocess and on those inside it; so nothing is left of what it interrupts when it fires
with one token in its gate.
-/
import ProcessNet.Proofs.Conversion.Evaluation
import ProcessNet.Proofs.Conversion.Handover
import ProcessNet.Proofs.Marking.Storable
import ProcessNet.Proofs.Process.Sound

namespace ProcessNet

/-! ## Transitions that clear a scope -/

namespace Net

variable {n : Net} {t : TransitionId} {gate p : PlaceId} {scope : PlaceId → Prop} {m m' : Marking}

/-- The transition takes from its gate alone and resets all other places of the scope. -/
structure Cuts (n : Net) (scope : PlaceId → Prop) (gate : PlaceId) (t : TransitionId) : Prop where
  live : n.hasTransition t
  input : ∀ p, Arc.input p t ∈ n.arcs ↔ p = gate
  reset : ∀ p, scope p → p ≠ gate → Arc.reset p t ∈ n.arcs

namespace Cuts

variable (h : n.Cuts scope gate t) (hfree : ∀ p, Arc.inhibitor p t ∉ n.arcs)
include h hfree

theorem enabled (hm : n.incidence.Mirrored) (hgate : 0 < m.tokens gate) : n.isEnabled t m :=
  (isEnabled_iff hm).2 ⟨h.live, fun p hp => (h.input p).1 hp ▸ hgate, fun p hp => absurd hp (hfree p)⟩

/-- It fires unless an output place is full. -/
theorem exists_fire (hm : n.incidence.Mirrored) (hgate : 0 < m.tokens gate)
    (hroom : ∀ p, Arc.output t p ∈ n.arcs → m.tokens p < maxCount) : ∃ k, n.fire m t = .ok k := by
  obtain ⟨k, hk⟩ := (exists_successor_iff hm).2 fun p hp =>
    Nat.le_trans after_le_succ (Nat.succ_le_of_lt (hroom p hp))
  refine ⟨k, ?_⟩
  rw [fire, h.live, h.enabled hfree hm hgate, hk]
  rfl

omit hfree in
/-- It leaves nothing in the scope but what it puts there. -/
theorem tokens_fire (hm : n.incidence.Mirrored) (hapart : Arc.reset gate t ∉ n.arcs)
    (hgate : m.tokens gate = 1) (hfire : n.fire m t = .ok m') (hp : scope p) :
    m'.tokens p = if Arc.output t p ∈ n.arcs then 1 else 0 := by
  obtain ⟨-, htokens⟩ := fire_eq_ok hm hfire
  rw [htokens, after]
  by_cases hpg : p = gate
  · subst hpg
    rw [if_neg hapart, if_pos ((h.input p).2 rfl), hgate, Nat.sub_self, Nat.zero_add]
  · rw [if_pos (h.reset p hp hpg), Nat.zero_add]

end Cuts

end Net

/-! ## What a message interrupts -/

namespace Construction

open Identifier Net ProcessGraph

variable {g normal : ProcessGraph} {c : Construction} {p q : PlaceId} {t : TransitionId}
  {n m : NodeId} {l : List JoinedSubprocess}

/-- The place is the gate that `addGate` gave to the transition with this name. -/
def GateOf (c : Construction) (name : String) (q : PlaceId) : Prop :=
  IsGate c q ∧ ∃ t, c.net.bears [name] t ∧ Arc.input q t ∈ c.net.arcs

/-- The live place was made for a flow inside the subprocess `n`, or it is the gate of a message on a
subprocess in there. The flows are those of the graph in gateway form. -/
def HeldBy (g normal : ProcessGraph) (n : NodeId) (c : Construction) (q : PlaceId) : Prop :=
  c.net.hasPlace q ∧
    ((∃ f, MadeFor normal c f q ∧ g.Inside n (normal.flow f).process) ∨
      ∃ k m, (g.node k).kind.isSubprocess ∧ g.Inside n (g.node k).id ∧ m ∈ g.messagesOf k ∧
        GateOf c (boundaryName (g.node m).id (g.node k).process) q)

instance (normal : ProcessGraph) (c : Construction) (f : FlowId) (q : PlaceId) :
    Decidable (MadeFor normal c f q) :=
  decidable_of_iff (c.flowPlaces.lookup f = some q ∧ ∀ e ∈ c.flowPlaces,
      c.flowPlaces.lookup e.1 = some q → (normal.flow f).id ≤ (normal.flow e.1).id) <|
    and_congr_right fun _ => by
      constructor
      · intro h k hk
        obtain ⟨l, r, hlr, _⟩ := List.lookup_eq_some_iff.1 hk
        exact h (k, q) (hlr ▸ List.mem_append_right _ List.mem_cons_self) hk
      · exact fun h e _ => h e.1

instance (c : Construction) (q : PlaceId) : Decidable (IsGate c q) :=
  decidable_of_iff ((c.net.place? q).any (·.role = .boundaryGate)) <| by
    cases h : c.net.place? q <;> simp [IsGate, h]

instance (c : Construction) (name : String) (q : PlaceId) : Decidable (GateOf c name q) :=
  decidable_of_iff (IsGate c q ∧ feeds [name] c.net q) <| and_congr_right fun _ => feeds_iff_exists

theorem Bears.bears_singleton_iff {name : String} {u : TransitionId} (hc : c.net.Consistent)
    (ht : c.Bears t name) : c.net.bears [name] u ↔ u = t := by
  constructor
  · intro hu
    obtain ⟨_, hname, hbears⟩ := bears_of_bears hu
    exact (List.mem_singleton.1 hname ▸ hbears).unique hc ht
  · rintro rfl
    exact ht.bears (List.mem_singleton.2 rfl)

section Finished

variable (hfin : Finished normal l c) (hrefines : Refines g normal)
  (hn : (g.node n).kind.isSubprocess)
include hfin hrefines hn

/-- The gate of a message on the subprocess is opened by the entry of the subprocess. -/
theorem Finished.opened_of_gateOf (hm : m ∈ g.messagesOf n)
    (hq : GateOf c (boundaryName (g.node m).id (g.node n).process) q) :
    ∃ s ∈ l, s.id = (g.node n).id ∧ Arc.output s.enter q ∈ c.net.arcs := by
  obtain ⟨s, hsl, hw, t, p, hawaited, hbears⟩ := hfin.exists_awaited hrefines hn hm
  obtain ⟨_, u, hu, ha⟩ := hq
  obtain rfl := (hbears.bears_singleton_iff hfin.sound.valid.consistent).1 hu
  obtain rfl := (hawaited.input q).1 ha
  exact ⟨s, hsl, hw.joined.id.trans (hrefines.id_eq (lt_of_isSubprocess hn)).1, hawaited.opened⟩

omit hn in
theorem Finished.owned_of_heldBy (hq : HeldBy g normal n c q) : Owned normal (g.Inside n) l c q := by
  rcases hq.2 with hflow | ⟨k, m, hk, hin, hm, hgate⟩
  · exact .inl hflow
  · obtain ⟨s, hsl, hid, hopened⟩ := hfin.opened_of_gateOf hrefines hk hm hgate
    exact .inr ⟨hgate.1, s, hsl, hid ▸ hin, hopened⟩

/-- The transition of a message on a subprocess clears all that is held by the subprocess. -/
theorem Finished.exists_cuts (hr : normal.Enclosure n (g.Inside n)) (hm : m ∈ g.messagesOf n) :
    ∃ t gate, (∀ u, c.net.bears [boundaryName (g.node m).id (g.node n).process] u ↔ u = t) ∧
      GateOf c (boundaryName (g.node m).id (g.node n).process) gate ∧
      c.net.Cuts (HeldBy g normal n c) gate t := by
  have hlt := lt_of_isSubprocess hn
  obtain ⟨_, _, _, t, gate, hawaited, hbears⟩ := hfin.exists_awaited hrefines hn hm
  have hsole := fun u => hbears.bears_singleton_iff hfin.sound.valid.consistent (u := u)
  obtain ⟨s, _, hw, hinterrupts⟩ := hfin.interrupts n _ hr
  obtain ⟨hm', hkind⟩ := mem_messagesOf.1 ((hrefines.mem_messagesOf_iff hlt).2 hm)
  refine ⟨t, gate, hsole, ⟨hawaited.gate, t, (hsole t).2 rfl, (hawaited.input gate).2 rfl⟩,
    hbears.live, hawaited.input, fun q hq hne => ?_⟩
  rw [← (hrefines.id_eq (mem_messagesOf.1 hm).1).1, ← (hrefines.id_eq hlt).2.1, ← hw.joined.parent]
    at hbears
  have hcloses := hinterrupts m
    (mem_boundaryEventsOf.2 ⟨hm', .message, by rw [hw.joined.id]; exact hkind⟩) ⟨_, hkind⟩ t hbears
    q ⟨hq.1, hfin.owned_of_heldBy hrefines hq⟩
  -- An input arc leads from the gate only, so it is a reset arc that clears the place.
  exact hcloses.resolve_left fun hin => hne ((hawaited.input q).1 hin)

end Finished

end Construction

namespace ProcessDeclaration

open Net Construction ProcessGraph

/-- In the net that `toAcceptingNet` makes of a graph that was built, the transition of a message on a
subprocess takes from its gate alone and resets all other live places that were made for flows inside the
subprocess at any depth, and the gates of messages on the subprocess and on those inside it. With one
token in its gate it is enabled, it fires unless one of its output places is full, and then it leaves in
these places only what it puts there. No transition resets what it takes from, no transition needs a
place to be empty, and all places and transitions belong to the root process in the end. -/
theorem message_clears_nested_scope {d : ProcessDeclaration} {g : ProcessGraph} {showEvents : Bool}
    {a : AcceptingNet} (hbuild : d.build = .ok g) (h : g.toAcceptingNet showEvents = .ok a) :
    ∃ normal c, g.normalize = .ok normal ∧
      construct normal showEvents (start normal) = .ok () c ∧ a = c.toAccepting ∧
      (∀ n m, (g.node n).kind.isSubprocess → m ∈ g.messagesOf n →
        ∃ t gate, (∀ u, a.net.bears [boundaryName (g.node m).id (g.node n).process] u ↔ u = t) ∧
          GateOf c (boundaryName (g.node m).id (g.node n).process) gate ∧
          (∀ q, Arc.input q t ∈ a.net.arcs ↔ q = gate) ∧
          (∀ q, HeldBy g normal n c q → q ≠ gate → Arc.reset q t ∈ a.net.arcs) ∧
          ∀ k : Marking, k.tokens gate = 1 → a.net.isEnabled t k ∧
            ((∀ q, Arc.output t q ∈ a.net.arcs → k.tokens q < maxCount) →
              ∃ k', a.net.fire k t = .ok k') ∧
            ∀ k', a.net.fire k t = .ok k' → ∀ q, HeldBy g normal n c q →
              k'.tokens q = if Arc.output t q ∈ a.net.arcs then 1 else 0) ∧
      (∀ p t, Arc.input p t ∈ a.net.arcs → Arc.reset p t ∉ a.net.arcs) ∧
      (∀ p t, Arc.inhibitor p t ∉ a.net.arcs) ∧
      (∀ p x, a.net.place? p = some x → x.process = g.processId) ∧
      ∀ t x, a.net.transition? t = some x → x.process = g.processId := by
  obtain ⟨_, normal, c, hnormal, hc, rfl⟩ := toAcceptingNet_eq_ok h
  obtain ⟨l, hfin⟩ := finished_of_build hbuild hnormal hc
  obtain ⟨_, hd⟩ := declares_of_build hbuild
  have hrefines := refines_normalize hnormal
  have hmirrored := hfin.sound.valid.consistent.mirrored
  have horderly := hfin.orderly
  have hrooted := ((sound_of_build hbuild).normalize hnormal).rooted
  have hhoused := housed_of_construct (normal_normalize hd.linked hd.distinct hnormal) hrooted hc
  have hroot : normal.processId = g.processId := hrefines.processId
  refine ⟨normal, c, hnormal, hc, rfl, fun n m hn hm => ?_, horderly.apart, horderly.uninhibited,
    fun p x hx => (hhoused.place p x hx).root.trans hroot,
    fun t x hx => (hhoused.transition t x hx).root.trans hroot⟩
  have hr := (enclosure_of_layered (layered_of_build hbuild) hd.distinct hn).refined hrefines
  obtain ⟨t, gate, hbears, hgate, hcuts⟩ := hfin.exists_cuts hrefines hn hr hm
  have hfree := fun p => horderly.uninhibited p t
  refine ⟨t, gate, hbears, hgate, hcuts.input, hcuts.reset, fun k hk => ?_⟩
  have hmarked : 0 < k.tokens gate := hk ▸ Nat.one_pos
  exact ⟨hcuts.enabled hfree hmirrored hmarked, hcuts.exists_fire hfree hmirrored hmarked,
    fun k' hfire q => hcuts.tokens_fire hmirrored (horderly.apart gate t ((hcuts.input gate).2 rfl)) hk
      hfire⟩

/-- An errand that a message can cut short, with a smaller one in it that another message can cut short. -/
def errand : ProcessDeclaration where
  processId := "p"
  name := "p"
  nodes := [⟨"a", none, .startEvent .normal, "p"⟩, ⟨"done", none, .endEvent .normal, "p"⟩,
    ⟨"in", none, .subprocess 0, "out"⟩, ⟨"in-done", none, .endEvent .normal, "in"⟩,
    ⟨"in-start", none, .startEvent .normal, "in"⟩, ⟨"in-t", some "T", .task, "in"⟩,
    ⟨"late", some "Late", .boundaryEvent .message "out", "p"⟩,
    ⟨"missed", none, .endEvent .normal, "p"⟩, ⟨"out", none, .subprocess 0, "p"⟩,
    ⟨"out-done", none, .endEvent .normal, "out"⟩, ⟨"out-start", none, .startEvent .normal, "out"⟩,
    ⟨"stop", some "Stop", .boundaryEvent .message "in", "out"⟩,
    ⟨"stopped", none, .endEvent .normal, "out"⟩]
  flows := [⟨"f1", none, .sequence, "a", "out", none⟩, ⟨"f2", none, .sequence, "out", "done", none⟩,
    ⟨"f3", none, .sequence, "late", "missed", none⟩,
    ⟨"g1", none, .sequence, "out-start", "in", none⟩,
    ⟨"g2", none, .sequence, "in", "out-done", none⟩,
    ⟨"g3", none, .sequence, "stop", "stopped", none⟩,
    ⟨"h1", none, .sequence, "in-start", "in-t", none⟩,
    ⟨"h2", none, .sequence, "in-t", "in-done", none⟩]

/-- What is evaluated on the net of this process, after both subprocesses were entered. -/
theorem converts_errand : errand.converts fun g normal c =>
    (g.node ⟨2⟩).kind.isSubprocess && (g.node ⟨8⟩).kind.isSubprocess &&
      decide ((g.node ⟨2⟩).id = "in") && decide ((g.node ⟨2⟩).process = (g.node ⟨8⟩).id) &&
      decide (⟨11⟩ ∈ g.messagesOf ⟨2⟩) && decide (⟨6⟩ ∈ g.messagesOf ⟨8⟩) &&
      decide (boundaryName (g.node ⟨11⟩).id (g.node ⟨2⟩).process = "t-boundary@@@stop@@@out") &&
      decide (boundaryName (g.node ⟨6⟩).id (g.node ⟨8⟩).process = "t-boundary@@@late@@@p") &&
      (c.net.play ["t-start-subprocess@@@out@@@p", "t-start-subprocess@@@in@@@out"] c.initial).any
        fun r =>
          c.net.marks (fun q => feeds ["t-boundary@@@late@@@p"] c.net q && r.2.tokens q == 1) r.2 &&
            (c.net.arcs.all fun a => decide (a ≠ .output a.transition a.place) ||
              !c.net.bears ["t-boundary@@@late@@@p"] a.transition || r.2.tokens a.place == 0) &&
            c.net.marks (fun q => c.flowPlaces.any fun e =>
              decide (MadeFor normal c e.1 q ∧ (normal.flow e.1).process = "in")) r.2 &&
            c.net.marks (fun q => decide (GateOf c "t-boundary@@@stop@@@out" q)) r.2 := by
  delta converts build Construction.construct addFlowPlaces addNodes addNode addGateway
    joinSubprocesses joinSubprocess normalEndPlaces addTaskBoundaries addSubprocessBoundaries
    addSubprocessBoundary mergeRaisingEnds raisingEnds terminateSubprocess terminateRoot messagesOf
    startsOf endsOf boundaryEventsOf terminationsOf ProcessGraph.normalize firstUnsupported?
  simp only [sortedPlaces_eq_insertionSort, sortedNodes_eq_insertionSort,
    sortedFlows_eq_insertionSort, select_eq_insertionSort,
    subprocessesInnermostFirst_eq_insertionSort]
  decide +kernel

/-- In the net of this process, once both subprocesses were entered, the message on the outer one fires and
takes the tokens away from a place in the inner one and from the gate of the message on that. -/
theorem errand_clears : ∃ g normal c a, errand.build = .ok g ∧ g.normalize = .ok normal ∧
    construct normal true (start normal) = .ok () c ∧ g.toAcceptingNet true = .ok a ∧
    ∃ ts t k k', a.net.Plays a.initial.tokens
        ["t-start-subprocess@@@out@@@p", "t-start-subprocess@@@in@@@out"] ts (Marking.tokens k) ∧
      a.net.bears ["t-boundary@@@late@@@p"] t ∧ a.net.fire k t = .ok k' ∧
      (∃ f q, MadeFor normal c f q ∧ (normal.flow f).process = "in" ∧ 0 < k.tokens q ∧
        k'.tokens q = 0) ∧
      ∃ q, GateOf c "t-boundary@@@stop@@@out" q ∧ 0 < k.tokens q ∧ k'.tokens q = 0 := by
  obtain ⟨g, normal, c, hbuild, hnormal, hc, ha, hcheck⟩ := exists_of_converts converts_errand
  simp only [Bool.and_eq_true, decide_eq_true_eq] at hcheck
  obtain ⟨⟨⟨⟨⟨⟨⟨⟨hinner, houter⟩, hid⟩, hwithin⟩, hstop⟩, hlate⟩, hstopName⟩, hlateName⟩, hplay⟩ := hcheck
  have hconsistent := (valid_of_construct hc).consistent
  obtain ⟨_, _, hnormal', hc', _, hall, -⟩ := message_clears_nested_scope hbuild ha
  obtain rfl := Except.ok.inj (hnormal.symm.trans hnormal')
  cases hc.symm.trans hc'
  obtain ⟨t, gate, hbears, -, hinput, -, hfires⟩ := hall ⟨8⟩ ⟨6⟩ houter hlate
  rw [hlateName] at hbears
  obtain ⟨ts, k, hplays, h⟩ := exists_of_play hconsistent hplay
  simp only [Bool.and_eq_true] at h
  obtain ⟨⟨⟨hgate, hempty⟩, hflow⟩, hgates⟩ := h
  obtain ⟨p, -, hp, -⟩ := exists_of_marks hgate
  obtain ⟨hp, hone⟩ := Bool.and_eq_true_iff.1 hp
  obtain ⟨u, hu, hpu⟩ := feeds_iff_exists.1 hp
  obtain rfl := (hbears u).1 hu
  obtain rfl := (hinput p).1 hpu
  -- The output places are empty, so the message fires, and what is marked is none of them.
  have hfree : ∀ q, Arc.output u q ∈ c.net.arcs → k.tokens q = 0 := by
    intro q hq
    have hq := List.all_eq_true.1 hempty _ hq
    simpa [Arc.output, hu] using hq
  obtain ⟨-, hexists, hclears⟩ := hfires k (by simpa using hone)
  obtain ⟨k', hk'⟩ := hexists fun q hq => by rw [hfree q hq]; decide
  have hcleared : ∀ q, HeldBy g normal ⟨8⟩ c q → 0 < k.tokens q → k'.tokens q = 0 := by
    intro q hq hmarked
    have hout : Arc.output u q ∉ c.net.arcs := fun ho => Nat.ne_of_gt hmarked (hfree q ho)
    exact (hclears k' hk' q hq).trans (if_neg hout)
  have hinside : g.Inside ⟨8⟩ (g.node ⟨2⟩).id := .nested hinner (hwithin ▸ .own)
  refine ⟨g, normal, c, _, hbuild, hnormal, hc, ha, ts, u, k, k', hplays, hu, hk', ?_, ?_⟩
  · obtain ⟨q, hlive, hq, hmarked⟩ := exists_of_marks hflow
    obtain ⟨e, -, he⟩ := List.any_eq_true.1 hq
    obtain ⟨hmade, hprocess⟩ := of_decide_eq_true he
    exact ⟨e.1, q, hmade, hprocess, hmarked, hcleared q
      ⟨hlive, .inl ⟨e.1, hmade, by rw [hprocess, ← hid]; exact hinside⟩⟩ hmarked⟩
  · obtain ⟨q, hlive, hq, hmarked⟩ := exists_of_marks hgates
    have hq := of_decide_eq_true hq
    exact ⟨q, hq, hmarked, hcleared q ⟨hlive, .inr ⟨⟨2⟩, ⟨11⟩, hinner, hinside, hstop,
      hstopName ▸ hq⟩⟩ hmarked⟩

end ProcessDeclaration

end ProcessNet
