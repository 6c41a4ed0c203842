/-
Doors of subprocesses. In the net of a process graph `joinSubprocess` and `addGate` give a subprocess one entry,
an exit for each normal end in it and a transition for each message on it. The entry opens a gate for each
message; each message and each exit goes through a gate and closes all of them.
-/
import ProcessNet.Proofs.Conversion.Gate
import ProcessNet.Proofs.Conversion.Nesting
import ProcessNet.Proofs.Process.GatewayForm

namespace ProcessNet

namespace Construction

open Identifier Net

variable {F : Fence} {g : ProcessGraph} {showEvents : Bool} {n : NodeId} {c c' : Construction}
  {s : JoinedSubprocess}

/-! ## The gates in the finished construction -/

/-- The steps of `construct`. -/
theorem construct_eq_ok (h : construct g showEvents c = .ok () c') :
    ∃ c₁ c₂ c₃ c₄ c₅ l, addFlowPlaces g c = .ok () c₁ ∧ addNodes g c₁ = .ok () c₂ ∧
      joinSubprocesses g c₂ = .ok l c₃ ∧ addTaskBoundaries g showEvents c₃ = .ok () c₄ ∧
      l.forM (finish g showEvents) c₄ = .ok () c₅ ∧ terminateRoot g c₅ = .ok () c' := by
  obtain ⟨_, c₁, hflows, h⟩ := bind_eq_ok.1 h
  obtain ⟨_, c₂, hnodes, h⟩ := bind_eq_ok.1 h
  obtain ⟨l, c₃, hjoin, h⟩ := bind_eq_ok.1 h
  obtain ⟨_, c₄, htasks, h⟩ := bind_eq_ok.1 h
  obtain ⟨_, c₅, hfinish, h⟩ := bind_eq_ok.1 h
  exact ⟨c₁, c₂, c₃, c₄, c₅, l, hflows, hnodes, hjoin, htasks, hfinish, h⟩

/-- `joinSubprocesses` joins all subprocesses, each under its own number. -/
theorem joined_of_joinSubprocesses {l : List JoinedSubprocess} (hc : c.Valid)
    (h : joinSubprocesses g c = .ok l c') :
    Edits steady c c' ∧ List.Forall₂ (fun n s => Joined g n s c') g.subprocessesInnermostFirst l := by
  obtain ⟨hwithin, hall⟩ := forall₂_of_mapM Within.refl Within.trans
    (fun m _ _ _ _ => (makes_joinSubprocess g m (F := steady)).within) h
  refine ⟨hwithin hc.steady, hall.imp ?_⟩
  rintro m s ⟨d, d', h₁, hjoin, h₂⟩
  have hd := (h₁ hc.steady).valid hc
  have hd' := ((makes_joinSubprocess g m).within hjoin hd.steady).valid hd
  exact (joined_of_joinSubprocess hd hjoin).kept (h₂ hd'.steady) hd' id

/-- The gates of a subprocess stay, whatever else `finish` does. -/
theorem gates_of_finish {l : List JoinedSubprocess} (hc : c.Valid)
    (hl : ∀ s ∈ l, ∃ n, Joined g n s c) (hs : s ∈ l)
    (h : l.forM (finish g showEvents) c = .ok () c') :
    Edits steady c c' ∧ ∃ messages : List TransitionId, ∀ m ∈ g.boundaryEventsOf s.id,
      IsMessage (g.node m) → ∃ t ∈ messages, ∃ p,
        Gate s (boundaryName (g.node m).id s.parent) t p c' ∧ ∀ u ∈ messages, Closes u p c' := by
  have hturn : ∀ r ∈ l, ∀ d d', finish g showEvents r d = .ok () d' →
      ∀ F : Fence, F.absorbs → (∀ r ∈ l, ¬ F.frozen r.outPlace) → Within F d d' :=
    fun r hr _ _ hrun F hF hfree => (makes_finish g hF showEvents r (hfree r hr)).within hrun
  have hrefl : ∀ d : Construction, ∀ F : Fence, F.absorbs → (∀ r ∈ l, ¬ F.frozen r.outPlace) →
      Within F d d := fun d F _ _ => .refl d
  have htrans : ∀ d₁ d₂ d₃ : Construction,
      (∀ F : Fence, F.absorbs → (∀ r ∈ l, ¬ F.frozen r.outPlace) → Within F d₁ d₂) →
      (∀ F : Fence, F.absorbs → (∀ r ∈ l, ¬ F.frozen r.outPlace) → Within F d₂ d₃) →
      ∀ F : Fence, F.absorbs → (∀ r ∈ l, ¬ F.frozen r.outPlace) → Within F d₁ d₃ :=
    fun d₁ d₂ d₃ h₁ h₂ F hF hfree => (h₁ F hF hfree).trans _ _ _ (h₂ F hF hfree)
  refine ⟨rel_of_forM hrefl htrans hturn h steady trivial (fun _ _ => id) hc.steady, ?_⟩
  obtain ⟨d, d', h₁, hfinish, h₂⟩ := exists_of_mem_forM hrefl htrans hturn h hs
  have h₁ := h₁ steady trivial (fun _ _ => id) hc.steady
  have hd := h₁.valid hc
  obtain ⟨n, hjoined⟩ := hl s hs
  obtain ⟨_, d₁, hboundaries, hrest⟩ := bind_eq_ok.1 hfinish
  obtain ⟨messages, hgates⟩ :=
    gates_of_addSubprocessBoundaries hd (hjoined.kept h₁ hc id).live_all hboundaries
  refine ⟨messages, fun m hm hmessage => ?_⟩
  obtain ⟨t, ht, p, hg, hcloses⟩ := hgates m hm hmessage
  -- No subprocess leads into the gate, since the places behind them are places of flows.
  have hb := (makes_addSubprocessBoundaries g showEvents s).within hboundaries hd.steady
  have hfree : ∀ r ∈ l, ¬ (around p True).frozen r.outPlace := by
    intro r hr
    obtain ⟨k, hk⟩ := hl r hr
    obtain ⟨f, hf⟩ := ((hk.kept h₁ hc id).kept hb hd id).behind
    exact ((hg.fenced True).flows f _ hf).1
  have hd₁ := hb.valid hd
  have h₃ := ((makes_terminateSubprocess g s (hfree s hs)).bind fun _ _ =>
    makes_absorb trivial s).within hrest (hg.fenced True)
  have hg' := hg.kept h₃ hd₁
  have h₄ := h₂ (around p True) trivial hfree (hg'.fenced True)
  exact ⟨t, ht, p, hg'.kept h₄ (h₃.valid hd₁),
    fun u hu => ((hcloses u hu).kept h₃ hd₁).kept h₄ (h₃.valid hd₁)⟩

/-- After `construct` every subprocess is joined, and its messages have gates. -/
theorem gates_of_construct (hn : index n < g.nodes.size) (hkind : (g.node n).kind.isSubprocess)
    (h : construct g showEvents (start g) = .ok () c) :
    ∃ s, Joined g n s c ∧ ∃ messages : List TransitionId, ∀ m ∈ g.boundaryEventsOf s.id,
      IsMessage (g.node m) → ∃ t ∈ messages, ∃ p,
        Gate s (boundaryName (g.node m).id s.parent) t p c ∧ ∀ u ∈ messages, Closes u p c := by
  obtain ⟨c₁, c₂, c₃, c₄, c₅, l, hflows, hnodes, hjoin, htasks, hfinish, hroot⟩ := construct_eq_ok h
  have hc₁ := ((makes_addFlowPlaces g trivial).within hflows (valid_start g).unfenced).valid
    (valid_start g)
  have hc₂ := ((makes_addNodes g).within hnodes hc₁.steady).valid hc₁
  obtain ⟨h₃, hall⟩ := joined_of_joinSubprocesses hc₂ hjoin
  have hc₃ := h₃.valid hc₂
  have h₄ := (makes_addTaskBoundaries g showEvents).within htasks hc₃.steady
  have hc₄ := h₄.valid hc₃
  have hl : ∀ s ∈ l, ∃ n, Joined g n s c₄ := by
    intro s hs
    obtain ⟨m, _, hm⟩ := exists_of_forall₂ hall.flip hs
    exact ⟨m, hm.kept h₄ hc₃ id⟩
  obtain ⟨s, hs, hjoined⟩ := exists_of_forall₂ hall
    (ProcessGraph.mem_subprocessesInnermostFirst.2 ⟨hn, hkind⟩)
  obtain ⟨h₅, messages, hgates⟩ := gates_of_finish hc₄ hl hs hfinish
  have hc₅ := h₅.valid hc₄
  have hjoined₅ := (hjoined.kept h₄ hc₃ id).kept h₅ hc₄ id
  have h₆ := (makes_terminateRoot g).within hroot hc₅.steady
  refine ⟨s, hjoined₅.kept h₆ hc₅ id, messages, fun m hm hmessage => ?_⟩
  obtain ⟨t, ht, p, hg, hcloses⟩ := hgates m hm hmessage
  have h₆ := (makes_terminateRoot g).within hroot (hg.fenced True)
  exact ⟨t, ht, p, hg.kept h₆ hc₅, fun u hu => (hcloses u hu).kept h₆ hc₅⟩

end Construction

/-! ## Entries, exits and messages in a net -/

/-- Whether a live transition bears one of these names. -/
def Net.bears (n : Net) (names : List String) (t : TransitionId) : Bool :=
  (n.transition? t).any fun x => names.contains x.name

theorem Net.bears_iff {n : Net} {names : List String} {t : TransitionId} :
    n.bears names t ↔ ∃ x, n.transition? t = some x ∧ x.name ∈ names := by
  rw [Net.bears, Option.any_eq_true]
  simp

namespace ProcessGraph

open Identifier Net Construction

variable {g normal : ProcessGraph} {n m : NodeId}

/-- The messages on the boundary of a subprocess. -/
def messagesOf (g : ProcessGraph) (n : NodeId) : List NodeId :=
  (g.boundaryEventsOf (g.node n).id).filter fun m =>
    (g.node m).kind = .boundaryEvent .message (g.node n).id

/-- The name of the transition by which `joinSubprocess` lets tokens into a subprocess. -/
def entryNames (g : ProcessGraph) (n : NodeId) : List String :=
  [entryName (g.node n).id (g.node n).process]

/-- The names of the transitions by which `joinSubprocess` lets tokens out of a subprocess, one for each
normal end in it. -/
def exitNames (g : ProcessGraph) (n : NodeId) : List String :=
  let count := (g.normalEndsOf (g.node n).id).length
  (List.range count).map (exitName (g.node n).id (g.node n).process count)

/-- The names of the transitions that `addSubprocessBoundary` adds for the messages on a subprocess. -/
def messageNames (g : ProcessGraph) (n : NodeId) : List String :=
  (g.messagesOf n).map fun m => boundaryName (g.node m).id (g.node n).process

theorem mem_messagesOf : m ∈ g.messagesOf n ↔
    index m < g.nodes.size ∧ (g.node m).kind = .boundaryEvent .message (g.node n).id := by
  rw [messagesOf, List.mem_filter, mem_boundaryEventsOf]
  constructor
  · rintro ⟨⟨hm, _⟩, hkind⟩
    exact ⟨hm, of_decide_eq_true hkind⟩
  · exact fun ⟨hm, hkind⟩ => ⟨⟨hm, _, hkind⟩, decide_eq_true hkind⟩

theorem Refines.mem_messagesOf_iff (h : Refines g normal) (hn : index n < g.nodes.size) :
    m ∈ normal.messagesOf n ↔ m ∈ g.messagesOf n := by
  rw [mem_messagesOf, mem_messagesOf, (h.id_eq hn).1]
  refine h.node_iff (P := fun x => x.kind = .boundaryEvent .message (g.node n).id)
    (fun x => Iff.rfl) fun x d hd hkind => ?_
  rw [hd] at hkind
  cases hkind

theorem Refines.length_normalEndsOf (h : Refines g normal) (process : String) :
    (normal.normalEndsOf process).length = (g.normalEndsOf process).length := by
  refine List.Perm.length_eq ((List.perm_ext_iff_of_nodup ?_ ?_).2 fun m => ?_)
  · exact (nodup_select _).filter _
  · exact (nodup_select _).filter _
  · rw [mem_normalEndsOf, mem_normalEndsOf]
    refine h.node_iff (P := fun x => x.process = process ∧ x.kind = .endEvent .normal)
      (fun x => Iff.rfl) fun x d hd hkind => ?_
    rw [hd] at hkind
    cases hkind.2

end ProcessGraph

/-! ## Doors -/

namespace Construction

open Identifier Net ProcessGraph

variable {g normal : ProcessGraph} {n : NodeId} {c : Construction} {s : JoinedSubprocess}
  {messages : List TransitionId} {t u : TransitionId} {p : PlaceId} {x y : Tokens}
  {ts us : List TransitionId}

/-- The transition `t` is a message on the subprocess, with the gate `p`; every message closes it. -/
structure Admits (s : JoinedSubprocess) (messages : List TransitionId) (c : Construction)
    (t : TransitionId) (p : PlaceId) : Prop where
  mem : t ∈ messages
  gate : ∃ name, Gate s name t p c
  closes : ∀ u ∈ messages, Closes u p c

/-- The entry, the exits and the messages of a subprocess bear their names. -/
structure Doors (g : ProcessGraph) (n : NodeId) (s : JoinedSubprocess)
    (messages : List TransitionId) (c : Construction) : Prop where
  consistent : c.net.Consistent
  enter : ∀ name ∈ g.entryNames n, c.Bears s.enter name
  exit : ∀ name ∈ g.exitNames n, ∃ u ∈ s.exits, c.Bears u name
  message : ∀ name ∈ g.messageNames n, ∃ t, c.Bears t name ∧ ∃ p, Admits s messages c t p
  apart : s.enter ∉ s.exits

theorem Bears.bears {name : String} {names : List String} (h : c.Bears t name)
    (hname : name ∈ names) : c.net.bears names t := by
  obtain ⟨x, hx, rfl⟩ := h
  exact bears_iff.2 ⟨x, hx, hname⟩

theorem bears_of_bears {names : List String} (h : c.net.bears names t) :
    ∃ name ∈ names, c.Bears t name := by
  obtain ⟨x, hx, hname⟩ := bears_iff.1 h
  exact ⟨x.name, hname, x, hx, rfl⟩

theorem bears_append {names names' : List String} :
    c.net.bears (names ++ names') t ↔ c.net.bears names t ∨ c.net.bears names' t := by
  rw [bears_iff, bears_iff, bears_iff]
  simp only [List.mem_append, and_or_left, exists_or]

/-- The exits of a subprocess bear their names. -/
theorem Joined.exists_exit (hs : Joined normal n s c) (hrefines : Refines g normal)
    (hn : (g.node n).kind.isSubprocess) {name : String} (hname : name ∈ g.exitNames n) :
    ∃ u ∈ s.exits, c.Bears u name := by
  obtain ⟨hid, hprocess, _⟩ := hrefines.id_eq (lt_of_isSubprocess hn)
  have hsid := hs.id.trans hid
  have hlen := hrefines.length_normalEndsOf s.id
  obtain ⟨k, hk, rfl⟩ := List.mem_map.1 hname
  obtain ⟨u, hu, hbears⟩ := hs.exit k (by rw [hlen, hsid]; exact List.mem_range.1 hk)
  rw [hlen, hsid, hs.parent.trans hprocess] at hbears
  exact ⟨u, hu, hbears⟩

theorem Joined.mem_exits (hs : Joined normal n s c) (hrefines : Refines g normal)
    (hn : (g.node n).kind.isSubprocess) (hc : c.net.Consistent)
    (ht : c.net.bears (g.exitNames n) t) : t ∈ s.exits := by
  obtain ⟨name, hname, hbears⟩ := bears_of_bears ht
  obtain ⟨u, hu, hbears'⟩ := hs.exists_exit hrefines hn hname
  exact hbears.unique hc hbears' ▸ hu

/-- Every subprocess of a graph that `construct` was run on has these doors. -/
theorem exists_doors (hrefines : Refines g normal) (hn : (g.node n).kind.isSubprocess)
    {showEvents : Bool} (h : construct normal showEvents (start normal) = .ok () c) :
    ∃ s messages, Doors g n s messages c := by
  have hlt := lt_of_isSubprocess hn
  obtain ⟨hid, hprocess, hkind⟩ := hrefines.id_eq hlt
  obtain ⟨s, hs, messages, hgates⟩ := gates_of_construct (Nat.lt_of_lt_of_le hlt hrefines.size)
    (hkind ▸ hn) h
  have hsid : s.id = (g.node n).id := hs.id.trans hid
  have hsparent : s.parent = (g.node n).process := hs.parent.trans hprocess
  refine ⟨s, messages, (valid_of_construct h).consistent, fun name hname => ?_,
    fun name hname => hs.exists_exit hrefines hn hname, fun name hname => ?_, hs.apart⟩
  · have hbears := hs.enter
    rw [hsid, hsparent] at hbears
    exact List.mem_singleton.1 hname ▸ hbears
  · obtain ⟨m, hm, rfl⟩ := List.mem_map.1 hname
    obtain ⟨hm', hkind'⟩ := mem_messagesOf.1 ((hrefines.mem_messagesOf_iff hlt).2 hm)
    have hevent : m ∈ normal.boundaryEventsOf s.id :=
      mem_boundaryEventsOf.2 ⟨hm', .message, by rw [hkind', hs.id]⟩
    obtain ⟨t, ht, p, hg, hcloses⟩ := hgates m hevent ⟨_, hkind'⟩
    have hbears := hg.bears
    rw [(hrefines.id_eq (mem_messagesOf.1 hm).1).1, hsparent] at hbears
    exact ⟨t, hbears, p, ht, ⟨_, hg⟩, hcloses⟩

namespace Doors

theorem bears_entryNames_iff (h : Doors g n s messages c) :
    c.net.bears (g.entryNames n) t ↔ t = s.enter := by
  have hname : entryName (g.node n).id (g.node n).process ∈ g.entryNames n :=
    List.mem_singleton.2 rfl
  constructor
  · intro ht
    obtain ⟨name, hname, hbears⟩ := bears_of_bears ht
    exact hbears.unique h.consistent (h.enter name hname)
  · rintro rfl
    exact (h.enter _ hname).bears hname

theorem mem_exits (h : Doors g n s messages c) (ht : c.net.bears (g.exitNames n) t) :
    t ∈ s.exits := by
  obtain ⟨name, hname, hbears⟩ := bears_of_bears ht
  obtain ⟨u, hu, hbears'⟩ := h.exit name hname
  exact hbears.unique h.consistent hbears' ▸ hu

theorem exists_admits (h : Doors g n s messages c) (ht : c.net.bears (g.messageNames n) t) :
    ∃ p, Admits s messages c t p := by
  obtain ⟨name, hname, hbears⟩ := bears_of_bears ht
  obtain ⟨u, hbears', p, hp⟩ := h.message name hname
  exact ⟨p, hbears.unique h.consistent hbears' ▸ hp⟩

theorem exists_bears (h : Doors g n s messages c) {name : String}
    (hname : name ∈ g.entryNames n ++ g.exitNames n ++ g.messageNames n) :
    ∃ t, c.net.bears [name] t := by
  have hmem : name ∈ [name] := List.mem_singleton.2 rfl
  rcases List.mem_append.1 hname with hname | hname
  · rcases List.mem_append.1 hname with hname | hname
    · exact ⟨_, (h.enter name hname).bears hmem⟩
    · obtain ⟨u, _, hbears⟩ := h.exit name hname
      exact ⟨u, hbears.bears hmem⟩
  · obtain ⟨t, hbears, _⟩ := h.message name hname
    exact ⟨t, hbears.bears hmem⟩

end Doors

end Construction

end ProcessNet
