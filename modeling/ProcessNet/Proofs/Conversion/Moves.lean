/-
The transitions of a construction as moves on flows. What a construction has made so far is charted: its
transitions are the moves of a set, its initial marking has a token for each flow of a multiset, its final
marking one for each place of some flows. Every part of the construction adds the moves of the node that it
is for.
-/
import Mathlib.Order.ConditionallyCompleteLattice.Basic
import ProcessNet.Proofs.Conversion.Ground
import ProcessNet.Proofs.Conversion.Stitching
import ProcessNet.Proofs.Net.Game
import ProcessNet.Proofs.Process.Game

namespace ProcessNet

namespace Net

variable {n n' : Net} {t : TransitionId}

theorem StepAdded.carries {x : Transition} {ins outs : List PlaceId}
    (h : StepAdded n x ins outs t n') (hn : n.Consistent) (hins : ins.Nodup) (houts : outs.Nodup) :
    n'.Carries t ins outs := by
  have hold : ∀ a ∈ n.arcs, a.transition ≠ t := fun _ => hn.transition_ne h.fresh
  refine ⟨hins, houts, fun p => ?_, fun p => ?_, fun p hp => ?_, fun p hp => ?_⟩
  · rw [h.mem_arcs, Multiset.mem_coe]
    constructor
    · exact fun hp => .inl ⟨p, hp, rfl⟩
    · rintro (⟨q, hq, he⟩ | ⟨q, _, he⟩ | ha)
      · cases he
        exact hq
      · cases he
      · exact absurd rfl (hold _ ha)
  · rw [h.mem_arcs, Multiset.mem_coe]
    constructor
    · exact fun hp => .inr (.inl ⟨p, hp, rfl⟩)
    · rintro (⟨q, _, he⟩ | ⟨q, hq, he⟩ | ha)
      · cases he
      · cases he
        exact hq
      · exact absurd rfl (hold _ ha)
  · rcases (h.mem_arcs _).1 hp with ⟨_, _, he⟩ | ⟨_, _, he⟩ | ha
    · cases he
    · cases he
    · exact hold _ ha rfl
  · rcases (h.mem_arcs _).1 hp with ⟨_, _, he⟩ | ⟨_, _, he⟩ | ha
    · cases he
    · cases he
    · exact hold _ ha rfl

/-- What the arcs of a transition tell of it stays as they do. -/
theorem Carries.of_arcs {ins outs : Multiset PlaceId} (h : n.Carries t ins outs)
    (harcs : ∀ a, a.transition = t → (a ∈ n'.arcs ↔ a ∈ n.arcs)) :
    n'.Carries t ins outs where
  nodup_ins := h.nodup_ins
  nodup_outs := h.nodup_outs
  input p := (h.input p).trans (harcs _ rfl).symm
  output p := (h.output p).trans (harcs _ rfl).symm
  inhibitor p hp := h.inhibitor p ((harcs _ rfl).1 hp)
  reset p hp := h.reset p ((harcs _ rfl).1 hp)

end Net

namespace Construction

open Identifier Net ProcessGraph

/-- The flows that tokens are taken from, those that they are put on, and what is shown. -/
abbrev MoveSet := Multiset FlowId → Multiset FlowId → Option String → Prop

/-- The flow has this place. -/
def Placed (places : List (FlowId × PlaceId)) (f : FlowId) (p : PlaceId) : Prop :=
  places.lookup f = some p

/-- The transition moves tokens from the places of the flows `i` to those of the flows `o`. -/
def Drawn (places : List (FlowId × PlaceId)) (n : Net) (t : TransitionId) (i o : Multiset FlowId) :
    Prop :=
  ∃ ins outs, Multiset.Rel (Placed places) i ins ∧ Multiset.Rel (Placed places) o outs ∧
    n.Carries t ins outs

/-- What a construction has made: the moves `moves`, tokens on the flows `start`, and one token for each
place of the flows `finish` in the final marking. -/
structure Charted (places : List (FlowId × PlaceId)) (moves : MoveSet) (start : Multiset FlowId)
    (finish : FlowId → Prop) (c : Construction) : Prop where
  consistent : c.net.Consistent
  flowPlaces : c.flowPlaces = places
  told : ∀ t, c.net.hasTransition t →
    ∃ i o, moves i o (c.net.label? t) ∧ Drawn places c.net t i o
  made : ∀ i o label, moves i o label →
    ∃ t, c.net.hasTransition t ∧ c.net.label? t = label ∧ Drawn places c.net t i o
  initial : ∃ m, Multiset.Rel (Placed places) start m ∧ c.initial.tokens = tokensOf m
  final : ∀ p, c.final.tokens p ≤ 1 ∧ (0 < c.final.tokens p ↔ ∃ f, finish f ∧ Placed places f p)

/-- What a part of a construction adds to what was made before. -/
def Adds (places : List (FlowId × PlaceId)) (moves : MoveSet) (start : Multiset FlowId)
    (finish : FlowId → Prop) (c c' : Construction) : Prop :=
  ∀ moves₀ start₀ finish₀, Charted places moves₀ start₀ finish₀ c →
    Charted places (moves₀ ⊔ moves) (start₀ + start) (finish₀ ⊔ finish) c'

variable {places : List (FlowId × PlaceId)} {g : ProcessGraph} {c c' c'' : Construction}
  {moves moves' : MoveSet} {start start' : Multiset FlowId} {finish finish' : FlowId → Prop}
  {n m : NodeId} {f k : FlowId} {p q : PlaceId}

theorem Adds.refl (c : Construction) : Adds places ⊥ 0 ⊥ c c := by
  intro moves₀ start₀ finish₀ h
  rwa [sup_bot_eq, Multiset.add_zero, sup_bot_eq]

theorem Adds.trans (h : Adds places moves start finish c c')
    (k : Adds places moves' start' finish' c' c'') :
    Adds places (moves ⊔ moves') (start + start') (finish ⊔ finish') c c'' := by
  intro moves₀ start₀ finish₀ hc
  rw [← sup_assoc, ← Multiset.add_assoc, ← sup_assoc]
  exact k _ _ _ (h _ _ _ hc)

theorem Adds.congr (h : Adds places moves start finish c c')
    (hmoves : ∀ i o label, moves i o label ↔ moves' i o label) (hstart : start = start')
    (hfinish : ∀ f, finish f ↔ finish' f) : Adds places moves' start' finish' c c' := by
  have he : moves = moves' := funext fun i => funext fun o => funext fun label =>
    propext (hmoves i o label)
  have he' : finish = finish' := funext fun f => propext (hfinish f)
  exact hstart ▸ he ▸ he' ▸ h

theorem Adds.congr_moves (h : Adds places moves start finish c c')
    (hmoves : ∀ i o label, moves i o label ↔ moves' i o label) :
    Adds places moves' start finish c c' :=
  h.congr hmoves rfl fun _ => Iff.rfl

/-! ## Loops -/

theorem adds_forM {α : Type} {turn : α → ConstructionM PUnit} {l : List α} {A : α → MoveSet}
    {S : α → Multiset FlowId} {E : α → FlowId → Prop}
    (hturn : ∀ x ∈ l, ∀ c c', turn x c = .ok () c' → Adds places (A x) (S x) (E x) c c')
    (h : l.forM turn c = .ok () c') :
    Adds places (fun i o label => ∃ x ∈ l, A x i o label) (l.map S).sum
      (fun f => ∃ x ∈ l, E x f) c c' := by
  induction l generalizing c with
  | nil =>
    cases h
    have hnone : Adds places ⊥ 0 ⊥ c' c' := .refl c'
    exact hnone.congr (fun i o label => by simp) rfl fun f => by simp
  | cons x l ih =>
    rw [List.forM] at h
    obtain ⟨_, c₁, hx, hl⟩ := bind_eq_ok.1 h
    have hrest := ih (fun y hy => hturn y (List.mem_cons_of_mem _ hy)) hl
    exact ((hturn x List.mem_cons_self _ _ hx).trans hrest).congr (fun i o label => by simp)
      (by simp) fun f => by simp

theorem adds_forM_moves {α : Type} {turn : α → ConstructionM PUnit} {l : List α} {A : α → MoveSet}
    (hturn : ∀ x ∈ l, ∀ c c', turn x c = .ok () c' → Adds places (A x) 0 ⊥ c c')
    (h : l.forM turn c = .ok () c') :
    Adds places (fun i o label => ∃ x ∈ l, A x i o label) 0 ⊥ c c' :=
  (adds_forM hturn h).congr (fun _ _ _ => Iff.rfl) (by simp) fun f => by simp

theorem adds_mapM {α β : Type} {turn : α → ConstructionM β} {l : List α} {ys : List β}
    {A : α → MoveSet}
    (hturn : ∀ x ∈ l, ∀ c y c', turn x c = .ok y c' → Adds places (A x) 0 ⊥ c c')
    (h : l.mapM turn c = .ok ys c') :
    Adds places (fun i o label => ∃ x ∈ l, A x i o label) 0 ⊥ c c' := by
  induction l generalizing c ys with
  | nil =>
    rw [List.mapM_nil] at h
    cases h
    have hnone : Adds places ⊥ 0 ⊥ c' c' := .refl c'
    exact hnone.congr_moves fun i o label => by simp
  | cons x l ih =>
    rw [List.mapM_cons] at h
    obtain ⟨y, c₁, hx, h⟩ := bind_eq_ok.1 h
    obtain ⟨zs, c₂, hl, h⟩ := bind_eq_ok.1 h
    cases h
    have hrest := ih (fun y hy => hturn y (List.mem_cons_of_mem _ hy)) hl
    have hall := (hturn x List.mem_cons_self _ _ _ hx).trans hrest
    rw [Multiset.add_zero, sup_bot_eq] at hall
    exact hall.congr_moves fun i o label => by simp

/-! ## One step -/

theorem Placed.unique (hp : Placed places f p) (hq : Placed places f q) : p = q :=
  Option.some.inj (hp.symm.trans hq)

theorem rel_of_forall₂ {α β : Type} {R : α → β → Prop} {as : List α} {bs : List β}
    (h : List.Forall₂ R as bs) : Multiset.Rel R as bs := by
  induction h with
  | nil => exact .zero
  | cons hab _ ih => exact .cons hab ih

/-- What is related to different members of a multiset without repetitions is not repeated. -/
theorem nodup_of_rel {α β : Type} {R : α → β → Prop} {s : Multiset α} {t : Multiset β}
    (hs : s.Nodup) (h : Multiset.Rel R s t)
    (hapart : ∀ a ∈ s, ∀ a' ∈ s, ∀ b, R a b → R a' b → a = a') : t.Nodup := by
  induction h with
  | zero => exact Multiset.nodup_zero
  | @cons a b s t hab hrel ih =>
    obtain ⟨ha, hs⟩ := Multiset.nodup_cons.1 hs
    refine Multiset.nodup_cons.2 ⟨fun hmem => ?_, ih hs fun x hx y hy =>
      hapart x (Multiset.mem_cons_of_mem hx) y (Multiset.mem_cons_of_mem hy)⟩
    obtain ⟨a', ha', hab'⟩ := Multiset.exists_mem_of_rel_of_mem (Multiset.rel_flip.2 hrel) hmem
    obtain rfl := hapart a (Multiset.mem_cons_self a s) a' (Multiset.mem_cons_of_mem ha') b hab hab'
    exact ha ha'

/-- A new step leaves the arcs of the others as they are. -/
theorem Drawn.stepAdded {n n' : Net} {x : Transition} {ins outs : List PlaceId} {t u : TransitionId}
    {i o : Multiset FlowId} (h : Drawn places n u i o) (hadded : StepAdded n x ins outs t n')
    (hu : u ≠ t) : Drawn places n' u i o := by
  obtain ⟨I, O, hI, hO, hcarries⟩ := h
  refine ⟨I, O, hI, hO, hcarries.of_arcs fun a ha => ?_⟩
  rw [hadded.mem_arcs]
  refine ⟨?_, fun h => .inr (.inr h)⟩
  rintro (⟨_, _, rfl⟩ | ⟨_, _, rfl⟩ | h)
  · exact absurd ha.symm hu
  · exact absurd ha.symm hu
  · exact h

/-- `addStep` adds all moves that its transition stands for. -/
theorem adds_step {x : Transition} {ins outs : List PlaceId} {t : TransitionId}
    (h : addStep x ins outs c = .ok t c') (hins : ins.Nodup) (houts : outs.Nodup)
    (hsome : ∃ i o, moves i o x.label)
    (hmoves : ∀ i o label, moves i o label → Multiset.Rel (Placed places) i ins ∧
      Multiset.Rel (Placed places) o outs ∧ label = x.label) : Adds places moves 0 ⊥ c c' := by
  intro moves₀ start₀ finish₀ hc
  obtain ⟨n, rfl, hadded⟩ := addStep_effect hc.consistent h
  have hnew := hadded.carries hc.consistent hins houts
  have hlabel : n.label? t = x.label := by
    rw [Net.label?, hadded.transition?_self]
    rfl
  have hlive : n.hasTransition t := hasTransition_iff.2 ⟨x, hadded.transition?_self⟩
  -- The transitions that were there are what they were.
  have hold : ∀ u, u ≠ t → n.transition? u = c.net.transition? u := fun u hu => by
    rw [hadded.transition?, if_neg hu]
  refine ⟨hadded.consistent, hc.flowPlaces, fun u hu => ?_, fun i o label hmove => ?_, ?_, ?_⟩
  · by_cases hut : u = t
    · subst hut
      obtain ⟨i, o, hmove⟩ := hsome
      obtain ⟨hi, ho, _⟩ := hmoves i o _ hmove
      exact ⟨i, o, .inr (hlabel.symm ▸ hmove), _, _, hi, ho, hnew⟩
    · have hu' : c.net.hasTransition u := by rwa [hasTransition, ← hold u hut]
      obtain ⟨i, o, hmove, hd⟩ := hc.told u hu'
      refine ⟨i, o, .inl ?_, hd.stepAdded hadded hut⟩
      rwa [Net.label?, hold u hut]
  · rcases hmove with hmove | hmove
    · obtain ⟨u, hu, hulabel, hd⟩ := hc.made i o label hmove
      have hut : u ≠ t := ne_of_hasTransition hu hadded.fresh
      refine ⟨u, ?_, ?_, hd.stepAdded hadded hut⟩
      · rwa [hasTransition, hold u hut]
      · rwa [Net.label?, hold u hut]
    · obtain ⟨hi, ho, rfl⟩ := hmoves i o label hmove
      exact ⟨t, hlive, hlabel, _, _, hi, ho, hnew⟩
  · rw [Multiset.add_zero]
    exact hc.initial
  · rw [sup_bot_eq]
    exact hc.final

/-! ## Steps from one flow to another -/

/-- The moves of a token from one of the flows `ins` to one of the flows `outs`. -/
def Between (ins outs : FlowId → Prop) (label : Option String) : MoveSet := fun i o l =>
  ∃ f k, ins f ∧ outs k ∧ i = {f} ∧ o = {k} ∧ l = label

variable {ins outs : FlowId → Prop} {label : Option String}

theorem adds_between {x : Transition} {t : TransitionId} (h : addStep x [p] [q] c = .ok t c')
    (hin : ∃ f, ins f) (hout : ∃ k, outs k) (hp : ∀ f, ins f → Placed places f p)
    (hq : ∀ k, outs k → Placed places k q) :
    Adds places (Between ins outs x.label) 0 ⊥ c c' := by
  refine adds_step h (List.nodup_singleton p) (List.nodup_singleton q) ?_ ?_
  · obtain ⟨f, hf⟩ := hin
    obtain ⟨k, hk⟩ := hout
    exact ⟨{f}, {k}, f, k, hf, hk, rfl, rfl, rfl⟩
  · rintro _ _ _ ⟨f, k, hf, hk, rfl, rfl, rfl⟩
    exact ⟨rel_singleton_left.2 ⟨p, hp f hf, rfl⟩, rel_singleton_left.2 ⟨q, hq k hk, rfl⟩, rfl⟩

theorem eq_singleton_of_head? {α : Type} {l : List α} {x : α} (h : l.head? = some x)
    (hlen : l.length ≤ 1) : l = [x] := by
  match l, hlen with
  | [_], _ =>
    cases h
    rfl

/-- `inPlace` answers the place in front of a node that one flow leads to. -/
theorem inPlace_placed (h : inPlace g n c = .ok p c') (hlen : (g.node n).incoming.length ≤ 1) :
    c' = c ∧ ∃ f, (g.node n).incoming = [f] ∧ Placed c.flowPlaces f p := by
  obtain ⟨f, hf, hp, rfl⟩ := inPlace_eq_ok.1 h
  exact ⟨rfl, f, eq_singleton_of_head? hf hlen, hp⟩

theorem outPlace_placed (h : outPlace g n c = .ok p c') (hlen : (g.node n).outgoing.length ≤ 1) :
    c' = c ∧ ∃ f, (g.node n).outgoing = [f] ∧ Placed c.flowPlaces f p := by
  obtain ⟨f, hf, hp, rfl⟩ := outPlace_eq_ok.1 h
  exact ⟨rfl, f, eq_singleton_of_head? hf hlen, hp⟩

/-- `addStep` from the flow into one node to the flow out of one. -/
theorem adds_single {x : Transition} {t : TransitionId} {fs ks : List FlowId}
    (h : addStep x [p] [q] c = .ok t c') (hfs : fs = [f]) (hks : ks = [k]) (hp : Placed places f p)
    (hq : Placed places k q) : Adds places (Between (· ∈ fs) (· ∈ ks) x.label) 0 ⊥ c c' := by
  subst hfs hks
  exact adds_between h ⟨f, List.mem_singleton_self f⟩ ⟨k, List.mem_singleton_self k⟩
    (fun _ he => List.mem_singleton.1 he ▸ hp) fun _ he => List.mem_singleton.1 he ▸ hq

theorem adds_addNodeStep (h : addNodeStep g n label c = .ok () c')
    (hin : (g.node n).incoming.length ≤ 1) (hout : (g.node n).outgoing.length ≤ 1) :
    Adds places (Between (· ∈ (g.node n).incoming) (· ∈ (g.node n).outgoing) label) 0 ⊥ c c' := by
  intro moves₀ start₀ finish₀ hc
  obtain ⟨p, c₁, hp, h₁⟩ := bind_eq_ok.1 h
  obtain ⟨rfl, f, hf, hp⟩ := inPlace_placed hp hin
  obtain ⟨q, c₂, hq, h₂⟩ := bind_eq_ok.1 h₁
  obtain ⟨rfl, k, hk, hq⟩ := outPlace_placed hq hout
  obtain ⟨t, c₃, ht, h₃⟩ := bind_eq_ok.1 h₂
  cases h₃
  rw [hc.flowPlaces] at hp hq
  exact adds_single ht hf hk hp hq _ _ _ hc

theorem sortedPlaces_placed {flows : List FlowId} {ps : List PlaceId}
    (h : sortedPlaces g flows c = .ok ps c') :
    c' = c ∧ Multiset.Rel (Placed c.flowPlaces) flows ps := by
  obtain ⟨rfl, hall⟩ := forall₂_of_mapM (R := Eq) Eq.refl (fun _ _ _ => Eq.trans)
    (fun f _ s p s' hf => (flowPlace_eq_ok.1 hf).2.symm) h
  have hplaced : List.Forall₂ (Placed c.flowPlaces) _ ps := hall.imp fun f p hf => by
    obtain ⟨_, _, rfl, hrun, rfl⟩ := hf
    exact (flowPlace_eq_ok.1 hrun).1
  rw [← Multiset.coe_eq_coe.2 (List.mergeSort_perm flows _)]
  exact ⟨rfl, rel_of_forall₂ hplaced⟩

theorem adds_addChoices {node : Node} {ps qs : List PlaceId} {fs ks : List FlowId}
    (h : addChoices node ps qs c = .ok () c') (hps : Multiset.Rel (Placed places) fs ps)
    (hqs : Multiset.Rel (Placed places) ks qs) :
    Adds places (Between (· ∈ fs) (· ∈ ks) none) 0 ⊥ c c' := by
  have hturn : ∀ e ∈ (ps.flatMap fun p => qs.map fun q => (p, q)).zipIdx, ∀ d d',
      (do let _ ← addSilentStep (stepName s!"{node.id}#{e.2}" node.process) node.process [e.1.1] [e.1.2]
          pure () : ConstructionM Unit) d = .ok () d' →
      Adds places (Between (fun f => f ∈ fs ∧ Placed places f e.1.1)
        (fun k => k ∈ ks ∧ Placed places k e.1.2) none) 0 ⊥ d d' := by
    rintro ⟨⟨p, q⟩, j⟩ he d d' hrun
    obtain ⟨hp, hq⟩ := mem_of_choice he
    obtain ⟨f, hf, hfp⟩ := Multiset.exists_mem_of_rel_of_mem (Multiset.rel_flip.2 hps) hp
    obtain ⟨k, hk, hkq⟩ := Multiset.exists_mem_of_rel_of_mem (Multiset.rel_flip.2 hqs) hq
    obtain ⟨t, d₁, ht, hd⟩ := bind_eq_ok.1 hrun
    cases hd
    exact adds_between ht ⟨f, hf, hfp⟩ ⟨k, hk, hkq⟩ (fun _ h => h.2) fun _ h => h.2
  refine (adds_forM_moves hturn h).congr_moves fun i o l => ?_
  constructor
  · rintro ⟨_, _, f, k, hf, hk, rfl, rfl, rfl⟩
    exact ⟨f, k, hf.1, hk.1, rfl, rfl, rfl⟩
  · rintro ⟨f, k, hf, hk, rfl, rfl, rfl⟩
    obtain ⟨p, hp, hfp⟩ := Multiset.exists_mem_of_rel_of_mem hps hf
    obtain ⟨q, hq, hkq⟩ := Multiset.exists_mem_of_rel_of_mem hqs hk
    have hmem : (p, q) ∈ ps.flatMap fun p => qs.map fun q => (p, q) :=
      List.mem_flatMap.2 ⟨p, hp, List.mem_map.2 ⟨q, hq, rfl⟩⟩
    obtain ⟨j, hj⟩ := List.mem_iff_getElem?.1 hmem
    exact ⟨((p, q), j), List.mk_mem_zipIdx_iff_getElem?.2 hj, f, k, ⟨hf, hfp⟩, ⟨hk, hkq⟩, rfl, rfl,
      rfl⟩

/-! ## Nodes -/

/-- Flows share a place only if they lead into normal ends of the root process. -/
def SharedAtEnds (g : ProcessGraph) (places : List (FlowId × PlaceId)) : Prop :=
  ∀ f k p, Placed places f p → Placed places k p →
    f = k ∨ (entersRootEnd g (g.flow f) ∧ entersRootEnd g (g.flow k))

/-- The moves that `addNode` adds: those of tasks, intermediate events and gateways. -/
def nodeMoves (g : ProcessGraph) (n : NodeId) : MoveSet :=
  match (g.node n).kind with
  | .task | .catchEvent _ | .throwEvent _ =>
    Between (· ∈ (g.node n).incoming) (· ∈ (g.node n).outgoing) (g.node n).displayName?
  | .gateway .exclusive _ => Between (· ∈ (g.node n).incoming) (· ∈ (g.node n).outgoing) none
  | .gateway .parallel _ =>
    fun i o label => i = (g.node n).incoming ∧ o = (g.node n).outgoing ∧ label = none
  | _ => ⊥

/-- The flows that a start event of the root process marks. -/
def nodeStart (g : ProcessGraph) (n : NodeId) : Multiset FlowId :=
  if (g.node n).kind.isStart ∧ (g.node n).process = g.processId then (g.node n).outgoing else 0

/-- The flows into a normal end event of the root process. -/
def nodeFinish (g : ProcessGraph) (n : NodeId) (f : FlowId) : Prop :=
  (g.node n).kind = .endEvent .normal ∧ (g.node n).process = g.processId ∧
    f ∈ (g.node n).incoming

theorem entersEnd_of_entersRootEnd (hg : g.Linked) (hf : index f < g.flows.size)
    (h : entersRootEnd g (g.flow f)) : g.EntersEnd f :=
  ⟨_, (kind_of_entersRootEnd h).1, (kind_of_entersRootEnd h).2, (hg.mem_incoming _ f).2 ⟨hf, rfl⟩⟩

theorem between_singleton (f k : FlowId) (i o : Multiset FlowId) (l : Option String) :
    Between (· ∈ [f]) (· ∈ [k]) label i o l ↔ i = ↑[f] ∧ o = ↑[k] ∧ l = label := by
  constructor
  · rintro ⟨f', k', hf, hk, rfl, rfl, rfl⟩
    obtain rfl := List.mem_singleton.1 hf
    obtain rfl := List.mem_singleton.1 hk
    exact ⟨rfl, rfl, rfl⟩
  · rintro ⟨rfl, rfl, rfl⟩
    exact ⟨f, k, List.mem_singleton_self f, List.mem_singleton_self k, rfl, rfl, rfl⟩

/-- Two flows into a gateway have no place in common. -/
theorem nodup_inputs_of_gateway {kind : GatewayKind} {direction : GatewayDirection} (hg : g.Linked)
    (hplaces : SharedAtEnds g places) (hkind : (g.node n).kind = .gateway kind direction)
    {ps : List PlaceId} (hps : Multiset.Rel (Placed places) (g.node n).incoming ps) : ps.Nodup := by
  refine Multiset.coe_nodup.1 (nodup_of_rel (Multiset.coe_nodup.2 (hg.nodup_incoming n)) hps
    fun f hf k _ p hfp hkp => ?_)
  refine (hplaces f k p hfp hkp).resolve_right fun hend => ?_
  have htarget := (kind_of_entersRootEnd hend.1).1
  rw [((hg.mem_incoming n f).1 hf).2, hkind] at htarget
  cases htarget

theorem nodup_outputs_of_gateway {direction : GatewayDirection} (hg : g.Linked)
    (hplaces : SharedAtEnds g places) (hends : g.EndsApart)
    (hkind : (g.node n).kind = .gateway .parallel direction) {qs : List PlaceId}
    (hqs : Multiset.Rel (Placed places) (g.node n).outgoing qs) : qs.Nodup := by
  refine Multiset.coe_nodup.1 (nodup_of_rel (Multiset.coe_nodup.2 (hg.nodup_outgoing n)) hqs
    fun f hf k hk p hfp hkp => ?_)
  rcases hplaces f k p hfp hkp with he | ⟨hfend, hkend⟩
  · exact he
  · exact hends.forks n direction hkind f hf k hk
      (entersEnd_of_entersRootEnd hg ((hg.mem_outgoing n f).1 hf).1 hfend)
      (entersEnd_of_entersRootEnd hg ((hg.mem_outgoing n k).1 hk).1 hkend)

theorem adds_addGateway {kind : GatewayKind} {direction : GatewayDirection} (hg : g.Linked)
    (hplaces : SharedAtEnds g places) (hends : g.EndsApart)
    (hkind : (g.node n).kind = .gateway kind direction) (hinclusive : kind ≠ .inclusive)
    (h : addGateway g n kind direction c = .ok () c') : Adds places (nodeMoves g n) 0 ⊥ c c' := by
  simp only [addGateway] at h
  split at h
  · rename_i hone
    obtain ⟨_, hin, hout⟩ := hone
    refine (adds_addNodeStep h (Nat.le_of_eq hin) (Nat.le_of_eq hout)).congr_moves fun i o l => ?_
    rw [nodeMoves, hkind]
    cases kind with
    | exclusive => exact Iff.rfl
    | inclusive => exact absurd rfl hinclusive
    | parallel =>
      obtain ⟨f, hf⟩ := List.length_eq_one_iff.1 hin
      obtain ⟨k, hk⟩ := List.length_eq_one_iff.1 hout
      rw [hf, hk]
      exact between_singleton f k i o l
  · split at h
    · cases h
    split at h
    · cases h
    intro moves₀ start₀ finish₀ hc
    obtain ⟨ps, c₁, hps, h₁⟩ := bind_eq_ok.1 h
    obtain ⟨rfl, hps⟩ := sortedPlaces_placed hps
    obtain ⟨qs, c₂, hqs, h₂⟩ := bind_eq_ok.1 h₁
    obtain ⟨rfl, hqs⟩ := sortedPlaces_placed hqs
    rw [hc.flowPlaces] at hps hqs
    refine Adds.congr_moves ?_ (fun i o l => (Iff.rfl : nodeMoves g n i o l ↔ _)) _ _ _ hc
    rw [nodeMoves, hkind]
    cases kind with
    | exclusive => exact adds_addChoices h₂ hps hqs
    | inclusive => exact absurd rfl hinclusive
    | parallel =>
      obtain ⟨t, c₃, ht, h₃⟩ := bind_eq_ok.1 h₂
      cases h₃
      refine adds_step ht (nodup_inputs_of_gateway hg hplaces hkind hps)
        (nodup_outputs_of_gateway hg hplaces hends hkind hqs) ⟨_, _, rfl, rfl, rfl⟩ ?_
      rintro i o l ⟨rfl, rfl, rfl⟩
      exact ⟨hps, hqs, rfl⟩

theorem adds_markStart {fs : Multiset FlowId} (h : markStart p c = .ok () c')
    (hp : Multiset.Rel (Placed places) fs {p}) : Adds places ⊥ fs ⊥ c c' := by
  intro moves₀ start₀ finish₀ hc
  obtain ⟨m, hadd, rfl⟩ := markStart_eq_ok.1 h
  obtain ⟨ps, hps, htokens⟩ := hc.initial
  refine ⟨hc.consistent, hc.flowPlaces, ?_, ?_, ⟨ps + {p}, hps.add hp, funext fun q => ?_⟩, ?_⟩
  · rw [sup_bot_eq]
    exact hc.told
  · rw [sup_bot_eq]
    exact hc.made
  · change _ = (ps + {p}).count q
    rw [Marking.tokens_add hadd, htokens, Multiset.count_add, Multiset.count_singleton]
    split
    · rename_i he
      rw [he]
      rfl
    · rfl
  · rw [sup_bot_eq]
    exact hc.final

/-- The final marking gets one token on the place of the flow. -/
theorem adds_finish (hp : Placed places f p) :
    Adds places ⊥ 0 (· = f) c { c with final := c.final.set p 1 } := by
  intro moves₀ start₀ finish₀ hc
  refine ⟨hc.consistent, hc.flowPlaces, ?_, ?_, ?_, fun q => ?_⟩
  · rw [sup_bot_eq]
    exact hc.told
  · rw [sup_bot_eq]
    exact hc.made
  · rw [Multiset.add_zero]
    exact hc.initial
  · obtain ⟨hle, hiff⟩ := hc.final q
    rw [Marking.tokens_set]
    split
    · rename_i he
      exact ⟨Nat.le_refl _, fun _ => ⟨f, .inr rfl, he ▸ hp⟩, fun _ => Nat.one_pos⟩
    · rename_i hne
      refine ⟨hle, hiff.trans ⟨fun ⟨f, hf, hfq⟩ => ⟨f, .inl hf, hfq⟩, ?_⟩⟩
      rintro ⟨k, hk | rfl, hfq⟩
      · exact ⟨k, hk, hfq⟩
      · exact absurd (Placed.unique hfq hp) hne

theorem nodeStart_eq_zero (h : (g.node n).kind.isStart = false) : nodeStart g n = 0 :=
  if_neg fun hstart => Bool.false_ne_true (h.symm.trans hstart.1)

/-- Nodes other than starts and ends only add moves. -/
theorem Adds.node (h : Adds places moves 0 ⊥ c c') (hmoves : nodeMoves g n = moves)
    (hstart : (g.node n).kind.isStart = false) (hend : (g.node n).kind.isEnd = false) :
    Adds places (nodeMoves g n) (nodeStart g n) (nodeFinish g n) c c' := by
  refine h.congr (fun i o label => by rw [hmoves]) (nodeStart_eq_zero hstart).symm fun f => ?_
  refine ⟨False.elim, fun hf => ?_⟩
  rw [hf.1] at hend
  cases hend

theorem adds_startEvent {trigger : EventTrigger} (hkind : (g.node n).kind = .startEvent trigger)
    (hslim : g.Slim n) (h : (outPlace g n >>= fun p =>
      if g.isRoot (g.node n).process then markStart p else pure ()) c = .ok () c') :
    Adds places (nodeMoves g n) (nodeStart g n) (nodeFinish g n) c c' := by
  intro moves₀ start₀ finish₀ hc
  obtain ⟨p, c₁, hp, h₁⟩ := bind_eq_ok.1 h
  obtain ⟨rfl, f, hf, hp⟩ := outPlace_placed hp hslim.2
  rw [hc.flowPlaces] at hp
  have hmoves : ∀ i o l, (⊥ : MoveSet) i o l ↔ nodeMoves g n i o l := fun i o l => by
    rw [nodeMoves, hkind]
  have hfinish : ∀ k, (⊥ : FlowId → Prop) k ↔ nodeFinish g n k := fun k => by
    rw [nodeFinish, hkind]
    simp
  split at h₁
  · rename_i hroot
    have hmark : Adds places ⊥ (g.node n).outgoing ⊥ c₁ c' := by
      refine adds_markStart h₁ ?_
      rw [hf]
      exact rel_singleton_left.2 ⟨p, hp, rfl⟩
    refine hmark.congr hmoves ?_ hfinish _ _ _ hc
    rw [nodeStart, if_pos ⟨by rw [hkind]; rfl, of_decide_eq_true hroot⟩]
  · rename_i hroot
    cases h₁
    refine (Adds.refl c').congr hmoves ?_ hfinish _ _ _ hc
    rw [nodeStart, if_neg fun hstart => hroot (decide_eq_true hstart.2)]

theorem adds_endEvent {trigger : EventTrigger} (hkind : (g.node n).kind = .endEvent trigger)
    (hslim : g.Slim n) (h : (inPlace g n >>= fun p =>
      if trigger = .normal ∧ g.isRoot (g.node n).process then
        modify fun c => { c with final := c.final.set p 1 } else pure ()) c = .ok () c') :
    Adds places (nodeMoves g n) (nodeStart g n) (nodeFinish g n) c c' := by
  intro moves₀ start₀ finish₀ hc
  obtain ⟨p, c₁, hp, h₁⟩ := bind_eq_ok.1 h
  obtain ⟨rfl, f, hf, hp⟩ := inPlace_placed hp hslim.1
  rw [hc.flowPlaces] at hp
  have hmoves : ∀ i o l, (⊥ : MoveSet) i o l ↔ nodeMoves g n i o l := fun i o l => by
    rw [nodeMoves, hkind]
  have hstart : 0 = nodeStart g n := (nodeStart_eq_zero (by rw [hkind]; rfl)).symm
  split at h₁
  · rename_i hroot
    cases h₁
    refine (adds_finish hp).congr hmoves hstart (fun k => ?_) _ _ _ hc
    rw [nodeFinish, hkind, hroot.1, hf, List.mem_singleton]
    exact ⟨fun hk => ⟨rfl, of_decide_eq_true hroot.2, hk⟩, fun hk => hk.2.2⟩
  · rename_i hroot
    cases h₁
    refine (Adds.refl c').congr hmoves hstart (fun k => ?_) _ _ _ hc
    rw [nodeFinish, hkind]
    constructor
    · exact False.elim
    · rintro ⟨hnormal, hprocess, _⟩
      cases hnormal
      exact hroot ⟨rfl, decide_eq_true hprocess⟩

theorem adds_addNode (hg : g.Normal) (hplaces : SharedAtEnds g places) (hends : g.EndsApart)
    (hinclusive : ∀ direction, (g.node n).kind ≠ .gateway .inclusive direction)
    (h : addNode g n c = .ok () c') :
    Adds places (nodeMoves g n) (nodeStart g n) (nodeFinish g n) c c' := by
  have hslim : (g.node n).kind.isGateway = false → g.Slim n := inGatewayForm_iff.1 hg.form n
  unfold addNode at h
  cases hkind : (g.node n).kind with
  | startEvent trigger =>
    simp only [hkind] at h
    exact adds_startEvent hkind (hslim (by rw [hkind]; rfl)) h
  | endEvent trigger =>
    simp only [hkind] at h
    exact adds_endEvent hkind (hslim (by rw [hkind]; rfl)) h
  | task | catchEvent | throwEvent =>
    simp only [hkind] at h
    obtain ⟨hin, hout⟩ := hslim (by rw [hkind]; rfl)
    exact (adds_addNodeStep h hin hout).node (by rw [nodeMoves, hkind]) (by rw [hkind]; rfl)
      (by rw [hkind]; rfl)
  | gateway kind direction =>
    simp only [hkind] at h
    have hne : kind ≠ .inclusive := by
      rintro rfl
      exact hinclusive direction hkind
    exact (adds_addGateway hg.linked hplaces hends hkind hne h).node rfl (by rw [hkind]; rfl)
      (by rw [hkind]; rfl)
  | subprocess | boundaryEvent =>
    simp only [hkind] at h
    cases h
    exact (Adds.refl c).node (by rw [nodeMoves, hkind]) (by rw [hkind]; rfl) (by rw [hkind]; rfl)

end Construction

end ProcessNet
