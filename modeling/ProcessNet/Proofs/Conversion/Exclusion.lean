/-
Mutual exclusion of the messages on a subprocess. By the gates that `addGate` puts between its entry and its
exits, exits and messages together are along every run at most as many as entries, and after a message no other
one can arrive until the subprocess is entered again.
-/
import ProcessNet.Proofs.Conversion.Evaluation
import ProcessNet.Proofs.Net.Gate

namespace ProcessNet

namespace Construction

open Identifier Net ProcessGraph

variable {g : ProcessGraph} {n : NodeId} {c : Construction} {s : JoinedSubprocess}
  {messages : List TransitionId} {t u : TransitionId} {p : PlaceId} {x y : Tokens}
  {ts us : List TransitionId}

/-- What closes the gates of a subprocess: an exit or a message. -/
def outcome (g : ProcessGraph) (n : NodeId) (net : Net) (t : TransitionId) : Bool :=
  net.bears (g.exitNames n) t || net.bears (g.messageNames n) t

theorem Admits.initial_eq_zero (hp : Admits s messages c t p) : c.initial.tokens p = 0 := by
  obtain ⟨_, hg⟩ := hp.gate
  exact hg.unmarked

namespace Doors

/-- A message is neither the entry nor an exit. -/
theorem apart_of_message (h : Doors g n s messages c) (ht : c.net.bears (g.messageNames n) t) :
    t ∉ s.enter :: s.exits := by
  obtain ⟨_, hp⟩ := h.exists_admits ht
  obtain ⟨_, hg⟩ := hp.gate
  exact hg.apart

theorem gated (h : Doors g n s messages c) (hmessages : ∃ t p, Admits s messages c t p) :
    c.net.Gated s.enter (fun t => outcome g n c.net t)
      (fun p => ∃ t, Admits s messages c t p) := by
  refine ⟨fun p ⟨t, hp⟩ u hu => ?_, fun hout => ?_, fun t ht => ?_, fun t ht p ⟨u, hp⟩ => ?_⟩
  · obtain ⟨_, hg⟩ := hp.gate
    exact hg.output u hu
  · rcases Bool.or_eq_true_iff.1 hout with hexit | hmessage
    · exact h.apart (h.mem_exits hexit)
    · exact h.apart_of_message hmessage List.mem_cons_self
  · rcases Bool.or_eq_true_iff.1 ht with hexit | hmessage
    · -- An exit goes through the gate of any message.
      obtain ⟨u, p, hp⟩ := hmessages
      obtain ⟨_, hg⟩ := hp.gate
      exact ⟨p, ⟨u, hp⟩, (hg.input t).2 (.inr (h.mem_exits hexit))⟩
    · obtain ⟨p, hp⟩ := h.exists_admits hmessage
      obtain ⟨_, hg⟩ := hp.gate
      exact ⟨p, ⟨t, hp⟩, (hg.input t).2 (.inl rfl)⟩
  · rcases Bool.or_eq_true_iff.1 ht with hexit | hmessage
    · obtain ⟨_, hg⟩ := hp.gate
      exact .inl ((hg.input t).2 (.inr (h.mem_exits hexit)))
    · obtain ⟨_, hq⟩ := h.exists_admits hmessage
      exact hp.closes t hq.mem

/-- No transition is both an exit and a message. -/
theorem countP_outcome (h : Doors g n s messages c) (ts : List TransitionId) :
    ts.countP (c.net.bears (g.exitNames n)) + ts.countP (c.net.bears (g.messageNames n)) =
      ts.countP (outcome g n c.net) := by
  induction ts with
  | nil => rfl
  | cons t ts ih =>
    have hnot : ¬ (c.net.bears (g.exitNames n) t ∧ c.net.bears (g.messageNames n) t) :=
      fun ⟨hexit, hmessage⟩ =>
        h.apart_of_message hmessage (List.mem_cons_of_mem _ (h.mem_exits hexit))
    rw [List.countP_cons, List.countP_cons, List.countP_cons, ← ih, outcome]
    cases hexit : c.net.bears (g.exitNames n) t <;>
      cases hmessage : c.net.bears (g.messageNames n) t <;>
      simp_all <;> omega

/-- After a message no other one can arrive before the next entry. -/
theorem not_enabled (h : Doors g n s messages c) (ht : c.net.bears (g.messageNames n) t)
    (hu : c.net.bears (g.messageNames n) u) (hne : u ≠ t)
    (hrun : c.net.Run (c.net.after t x) us y) (hus : ∀ r ∈ us, r ≠ s.enter) :
    ¬ c.net.Enabled u y := by
  obtain ⟨_, hq⟩ := h.exists_admits ht
  obtain ⟨p, hp⟩ := h.exists_admits hu
  obtain ⟨_, hgate⟩ := hp.gate
  have hapart := h.apart_of_message ht
  have hreset : Arc.reset p t ∈ c.net.arcs := by
    refine (hp.closes t hq.mem).resolve_left fun hin => ?_
    rcases (hgate.input t).1 hin with rfl | hexit
    · exact hne rfl
    · exact hapart (List.mem_cons_of_mem _ hexit)
  have hzero : c.net.after t x p = 0 :=
    after_of_reset hreset fun hout => hapart (hgate.output t hout ▸ List.mem_cons_self)
  have hclosed : y p = 0 :=
    eq_zero_of_run hrun (fun r hr hout => hus r hr (hgate.output r hout)) hzero
  intro he
  have := he.marked p ((hgate.input u).2 (.inl rfl))
  omega

end Doors

end Construction

namespace ProcessGraph

open Net Construction

/-- In the net that `toAcceptingNet` makes of a process graph each door of a subprocess with messages has
its transition. Exits and messages together fire at most as often as the entry, and once a message has
fired no other one is enabled until the entry fires again. -/
theorem messages_exclude_each_other {g : ProcessGraph} {showEvents : Bool} {a : AcceptingNet}
    (h : g.toAcceptingNet showEvents = .ok a) (n : NodeId) (hn : (g.node n).kind.isSubprocess)
    (hmessages : g.messagesOf n ≠ []) :
    (∀ name ∈ g.entryNames n ++ g.exitNames n ++ g.messageNames n, ∃ t, a.net.bears [name] t) ∧
    (∀ ts x, a.net.Run a.initial.tokens ts x →
      ts.countP (a.net.bears (g.exitNames n)) + ts.countP (a.net.bears (g.messageNames n)) ≤
        ts.countP (a.net.bears (g.entryNames n))) ∧
    ∀ ts t us x, a.net.Run a.initial.tokens (ts ++ t :: us) x →
      a.net.bears (g.messageNames n) t → (∀ u ∈ us, a.net.bears (g.entryNames n) u = false) →
      ∀ u, a.net.bears (g.messageNames n) u → u ≠ t → ¬ a.net.Enabled u x := by
  obtain ⟨_, normal, c, hnormal, hc, rfl⟩ := toAcceptingNet_eq_ok h
  obtain ⟨s, messages, hdoors⟩ := exists_doors (refines_normalize hnormal) hn hc
  obtain ⟨m, hm⟩ := List.exists_mem_of_ne_nil _ hmessages
  obtain ⟨t, _, p, hp⟩ := hdoors.message _ (List.mem_map.2 ⟨m, hm, rfl⟩)
  have hgated := hdoors.gated ⟨t, p, hp⟩
  refine ⟨fun name => hdoors.exists_bears, fun ts x hrun => ?_,
    fun ts t us x hrun ht hus u hu hne => ?_⟩
  · change ts.countP (c.net.bears (g.exitNames n)) + ts.countP (c.net.bears (g.messageNames n)) ≤
      ts.countP (c.net.bears (g.entryNames n))
    have henter : ts.countP (c.net.bears (g.entryNames n)) = ts.countP (· = s.enter) :=
      List.countP_congr fun u _ => by rw [hdoors.bears_entryNames_iff, decide_eq_true_iff]
    have hcount := hgated.countP_le hrun 0 0
      (fun q ⟨_, hq⟩ => Nat.le_of_eq ((Nat.zero_add _).trans hq.initial_eq_zero)) ⟨t, hp⟩
    simp only [Bool.decide_eq_true, Nat.zero_add] at hcount
    rw [hdoors.countP_outcome, henter]
    exact Nat.le_trans (Nat.le_add_right _ _) hcount
  · obtain ⟨y, _, hrest⟩ := hrun.split
    cases hrest with
    | fire _ hrest =>
      refine hdoors.not_enabled ht hu hne hrest fun r hr he => ?_
      exact Bool.false_ne_true ((hus r hr).symm.trans (hdoors.bears_entryNames_iff.2 he))

end ProcessGraph

namespace ProcessDeclaration

open Construction Net ProcessGraph

/-- Work that can come too late or be cancelled. -/
def deadline : ProcessDeclaration where
  processId := "p"
  name := "p"
  nodes := [⟨"begin", none, .startEvent .normal, "p"⟩,
    ⟨"cancelled", some "Cancelled", .boundaryEvent .message "work", "p"⟩,
    ⟨"done", none, .endEvent .normal, "p"⟩, ⟨"dropped", none, .endEvent .normal, "p"⟩,
    ⟨"late", some "Late", .boundaryEvent .message "work", "p"⟩,
    ⟨"missed", none, .endEvent .normal, "p"⟩, ⟨"work", none, .subprocess 0, "p"⟩,
    ⟨"work-begin", none, .startEvent .normal, "work"⟩,
    ⟨"work-done", none, .endEvent .normal, "work"⟩]
  flows := [⟨"f1", none, .sequence, "begin", "work", none⟩,
    ⟨"f2", none, .sequence, "work", "done", none⟩,
    ⟨"f3", none, .sequence, "late", "missed", none⟩,
    ⟨"f4", none, .sequence, "cancelled", "dropped", none⟩,
    ⟨"h1", none, .sequence, "work-begin", "work-done", none⟩]

/-- What is evaluated on the net of this process: once the work has begun, both messages can arrive. -/
theorem converts_deadline : deadline.converts fun g _ c =>
    (g.node ⟨6⟩).kind.isSubprocess &&
      decide (g.messageNames ⟨6⟩ = ["t-boundary@@@cancelled@@@p", "t-boundary@@@late@@@p"]) &&
      (c.net.play ["t-start-subprocess@@@work@@@p"] c.initial).any fun r =>
        (g.messageNames ⟨6⟩).all fun name =>
          c.net.transitionIds.any fun t => c.net.bears [name] t && c.net.isEnabled t r.2 := by
  delta converts build Construction.construct addFlowPlaces addNodes addNode addGateway
    joinSubprocesses joinSubprocess normalEndPlaces addTaskBoundaries addSubprocessBoundaries
    addSubprocessBoundary mergeRaisingEnds raisingEnds terminateSubprocess terminateRoot messageNames
    messagesOf startsOf endsOf boundaryEventsOf terminationsOf ProcessGraph.normalize
    firstUnsupported?
  simp only [sortedPlaces_eq_insertionSort, sortedNodes_eq_insertionSort,
    sortedFlows_eq_insertionSort, select_eq_insertionSort,
    subprocessesInnermostFirst_eq_insertionSort]
  decide +kernel

/-- Of the two messages on the work either one can arrive once this has begun, but not one after the
other. -/
theorem late_excludes_cancelled : ∃ g a n, deadline.build = .ok g ∧ g.toAcceptingNet true = .ok a ∧
    (g.node n).kind.isSubprocess ∧
    g.messageNames n = ["t-boundary@@@cancelled@@@p", "t-boundary@@@late@@@p"] ∧
    (∀ ts x, a.net.Run a.initial.tokens ts x →
      ts.countP (a.net.bears (g.exitNames n)) + ts.countP (a.net.bears (g.messageNames n)) ≤
        ts.countP (a.net.bears (g.entryNames n))) ∧
    ∃ ts x t u, a.net.Plays a.initial.tokens ["t-start-subprocess@@@work@@@p"] ts x ∧
      a.net.bears ["t-boundary@@@late@@@p"] t ∧ a.net.bears ["t-boundary@@@cancelled@@@p"] u ∧
      a.net.Enabled t x ∧ a.net.Enabled u x ∧ ¬ a.net.Enabled u (a.net.after t x) := by
  obtain ⟨g, normal, c, hbuild, -, hc, ha, hcheck⟩ := exists_of_converts converts_deadline
  simp only [Bool.and_eq_true, decide_eq_true_eq] at hcheck
  obtain ⟨⟨hsub, hnames⟩, hplay⟩ := hcheck
  have hconsistent := (valid_of_construct hc).consistent
  have hmessages : g.messagesOf ⟨6⟩ ≠ [] := fun hnil => by
    rw [messageNames, hnil] at hnames
    cases hnames
  obtain ⟨-, hcount, hexclude⟩ := messages_exclude_each_other ha ⟨6⟩ hsub hmessages
  obtain ⟨ts, k, hplays, hall⟩ := exists_of_play hconsistent hplay
  rw [hnames] at hall hexclude
  have hready : ∀ name ∈ ["t-boundary@@@cancelled@@@p", "t-boundary@@@late@@@p"],
      ∃ t, c.net.bears [name] t ∧ c.net.Enabled t k.tokens := by
    intro name hname
    obtain ⟨t, -, ht⟩ := List.any_eq_true.1 (List.all_eq_true.1 hall name hname)
    obtain ⟨hbears, henabled⟩ := Bool.and_eq_true_iff.1 ht
    exact ⟨t, hbears, (isEnabled_iff hconsistent.mirrored).1 henabled⟩
  obtain ⟨u, hu, hcancelled⟩ := hready _ List.mem_cons_self
  obtain ⟨t, ht, hlate⟩ := hready _ (List.mem_cons_of_mem _ List.mem_cons_self)
  have hne : u ≠ t := by
    rintro rfl
    obtain ⟨x, hx, hname⟩ := bears_iff.1 hu
    obtain ⟨y, hy, hname'⟩ := bears_iff.1 ht
    obtain rfl := Option.some.inj (hx.symm.trans hy)
    exact absurd (List.mem_singleton.1 hname ▸ List.mem_singleton.1 hname') (by decide)
  have hbears : ∀ {name} {t : TransitionId},
      name ∈ ["t-boundary@@@cancelled@@@p", "t-boundary@@@late@@@p"] → c.net.bears [name] t →
        c.net.bears ["t-boundary@@@cancelled@@@p", "t-boundary@@@late@@@p"] t := by
    intro name t hname h
    obtain ⟨x, hx, hmem⟩ := bears_iff.1 h
    exact bears_iff.2 ⟨x, hx, List.mem_singleton.1 hmem ▸ hname⟩
  exact ⟨g, _, ⟨6⟩, hbuild, ha, hsub, hnames, hcount, ts, k.tokens, t, u, hplays, ht, hu, hlate,
    hcancelled, hexclude ts t [] _ (hplays.2.snoc hlate)
      (hbears (List.mem_cons_of_mem _ List.mem_cons_self) ht) (by simp) u
      (hbears List.mem_cons_self hu) hne⟩

end ProcessDeclaration

end ProcessNet
