/-
Conversions that can be computed. Sorting by merging does not reduce by itself; sorting by insertion gives
the same lists and does, so with it the conversion of a given graph can be evaluated, and transitions can be
fired by their names in the net that it answers.
-/
import Mathlib.Data.List.Sort
import ProcessNet.Proofs.Conversion.Built

namespace ProcessNet

/-! ## Sorting by insertion -/

section Sorting

variable {α : Type} {le : α → α → Bool}

theorem orderedInsert_append {a : α} {l₁ l₂ : List α} (hlt : ∀ b ∈ l₁, (!le a b) = true)
    (hle : ∀ b ∈ l₂, le a b = true) :
    (l₁ ++ l₂).orderedInsert (fun a b => le a b) a = l₁ ++ a :: l₂ := by
  induction l₁ with
  | nil =>
    cases l₂ with
    | nil => rfl
    | cons b l₂ => exact List.orderedInsert_cons_of_le _ _ (hle b List.mem_cons_self)
  | cons b l₁ ih =>
    have hb := hlt b List.mem_cons_self
    rw [Bool.not_eq_true'] at hb
    rw [List.cons_append, List.orderedInsert_cons, if_neg (by rw [hb]; decide),
      ih fun c hc => hlt c (List.mem_cons_of_mem _ hc)]
    rfl

/-- `mergeSort` and `insertionSort` are both stable, so they agree also where members of the list are
equivalent. -/
theorem mergeSort_eq_insertionSort (htrans : ∀ a b c, le a b → le b c → le a c)
    (htotal : ∀ a b, (le a b || le b a) = true) (l : List α) :
    l.mergeSort le = l.insertionSort fun a b => le a b := by
  induction l with
  | nil => rw [List.mergeSort_nil, List.insertionSort_nil]
  | cons a l ih =>
    obtain ⟨l₁, l₂, hcons, hrest, hlt⟩ := List.mergeSort_cons htrans htotal a l
    have hsorted := List.pairwise_mergeSort htrans htotal (a :: l)
    rw [hcons] at hsorted
    have hle := (List.pairwise_cons.1 (List.pairwise_append.1 hsorted).2.1).1
    rw [List.insertionSort_cons, ← ih, hcons, hrest, orderedInsert_append hlt hle]

/-- `mergeSort` by keys. -/
theorem mergeSort_key_eq {κ : Type} [LE κ] [DecidableLE κ] [IsTrans κ (· ≤ ·)]
    [Std.Total (α := κ) (· ≤ ·)] (key : α → κ) (l : List α) :
    (l.mergeSort fun a b => decide (key a ≤ key b)) =
      l.insertionSort fun a b => decide (key a ≤ key b) := by
  refine mergeSort_eq_insertionSort (fun a b c hab hbc => ?_) (fun a b => ?_) l
  · exact decide_eq_true (IsTrans.trans _ _ _ (of_decide_eq_true hab) (of_decide_eq_true hbc))
  · rw [← Bool.decide_or]
    exact decide_eq_true (Std.Total.total (r := (· ≤ ·)) (key a) (key b))

end Sorting

namespace ProcessGraph

variable (g : ProcessGraph)

theorem sortedNodes_eq_insertionSort : g.sortedNodes =
    (g.nodes.entries.insertionSort fun a b => decide (a.2.id ≤ b.2.id)).map (·.1) := by
  rw [sortedNodes, mergeSort_key_eq fun e : NodeId × Node => e.2.id]

theorem sortedFlows_eq_insertionSort : g.sortedFlows =
    (g.flows.entries.insertionSort fun a b => decide (a.2.id ≤ b.2.id)).map (·.1) := by
  rw [sortedFlows, mergeSort_key_eq fun e : FlowId × Flow => e.2.id]

theorem select_eq_insertionSort (keep : Node → Bool) : g.select keep =
    ((g.nodes.entries.insertionSort fun a b => decide (a.2.id ≤ b.2.id)).map (·.1)).filter
      fun n => keep (g.node n) := by
  rw [select, sortedNodes_eq_insertionSort]

theorem subprocessesInnermostFirst_eq_insertionSort : g.subprocessesInnermostFirst =
    (g.select (·.kind.isSubprocess)).insertionSort fun a b => decide (g.depth b ≤ g.depth a) := by
  refine mergeSort_eq_insertionSort (fun a b c hab hbc => ?_) (fun a b => ?_) _
  · exact decide_eq_true (Nat.le_trans (of_decide_eq_true hbc) (of_decide_eq_true hab))
  · rw [← Bool.decide_or]
    exact decide_eq_true (Nat.le_total _ _)

end ProcessGraph

namespace Construction

open Net ProcessGraph

theorem sortedPlaces_eq_insertionSort (g : ProcessGraph) (flows : List FlowId) : sortedPlaces g flows =
    (flows.insertionSort fun a b => decide ((g.flow a).id ≤ (g.flow b).id)).mapM flowPlace := by
  rw [sortedPlaces, mergeSort_key_eq fun f : FlowId => (g.flow f).id]

/-- Whether the place is that of a flow directly in the process. -/
def flowsAt (normal : ProcessGraph) (process : String) (c : Construction) (q : PlaceId) : Bool :=
  c.flowPlaces.any fun e => decide (c.flowPlaces.lookup e.1 = some q) &&
    decide ((normal.flow e.1).process = process)

theorem scopeOf_of_flowsAt {g normal : ProcessGraph} {n : NodeId} {process : String}
    {c : Construction} {q : PlaceId} (hn : (g.node n).id = process) (hq : c.net.hasPlace q)
    (h : flowsAt normal process c q) : ScopeOf g normal n c q := by
  obtain ⟨e, _, he⟩ := List.any_eq_true.1 h
  obtain ⟨hlookup, hprocess⟩ := Bool.and_eq_true_iff.1 he
  refine ⟨hq, .inl ⟨e.1, of_decide_eq_true hlookup, ?_⟩⟩
  rw [of_decide_eq_true hprocess, ← hn]
  exact .own

/-- Whether transitions with these names take from the place. -/
def feeds (names : List String) (net : Net) (p : PlaceId) : Bool :=
  net.arcs.any fun a => decide (a = .input p a.transition) && net.bears names a.transition

theorem feeds_iff_exists {names : List String} {net : Net} {p : PlaceId} :
    feeds names net p ↔ ∃ t, net.bears names t ∧ Arc.input p t ∈ net.arcs := by
  rw [feeds, List.any_eq_true]
  constructor
  · rintro ⟨a, ha, h⟩
    obtain ⟨he, hbears⟩ := Bool.and_eq_true_iff.1 h
    exact ⟨a.transition, hbears, of_decide_eq_true he ▸ ha⟩
  · rintro ⟨t, hbears, ha⟩
    exact ⟨_, ha, Bool.and_eq_true_iff.2 ⟨decide_eq_true rfl, hbears⟩⟩

end Construction

namespace ProcessDeclaration

open Construction

variable {d : ProcessDeclaration}

/-- The declared graph is built and converted, and `check` passes the graph, its gateway form and the
construction. -/
def converts (d : ProcessDeclaration)
    (check : ProcessGraph → ProcessGraph → Construction → Bool) : Bool :=
  match d.build with
  | .error _ => false
  | .ok g =>
    g.firstUnsupported?.isNone &&
      match g.normalize with
      | .error _ => false
      | .ok normal =>
        match construct normal true (start normal) with
        | .ok _ c => check g normal c
        | .error _ _ => false

theorem exists_of_converts {check : ProcessGraph → ProcessGraph → Construction → Bool}
    (h : d.converts check) : ∃ g normal c, d.build = .ok g ∧ g.normalize = .ok normal ∧
      construct normal true (start normal) = .ok () c ∧
      g.toAcceptingNet true = .ok c.toAccepting ∧ check g normal c := by
  unfold converts at h
  cases hbuild : d.build with
  | error e => rw [hbuild] at h; cases h
  | ok g =>
    rw [hbuild] at h
    obtain ⟨hfirst, h⟩ := Bool.and_eq_true_iff.1 h
    cases hnormal : g.normalize with
    | error e => rw [hnormal] at h; cases h
    | ok normal =>
      rw [hnormal] at h
      cases hc : construct normal true (start normal) with
      | error e c => simp only [hc] at h; cases h
      | ok u c =>
        simp only [hc] at h
        exact ⟨g, normal, c, rfl, hnormal, hc, ProcessGraph.toAcceptingNet_of_construct
          (Option.isNone_iff_eq_none.1 hfirst) hnormal hc, h⟩

/-- The declared graph is built, and `toAcceptingNet` fails with this error. -/
def refuses (d : ProcessDeclaration) (e : ConversionError) : Bool :=
  match d.build with
  | .error _ => false
  | .ok g =>
    match g.toAcceptingNet false with
    | .error e' => e' = e
    | .ok _ => false

theorem exists_of_refuses {e : ConversionError} (h : d.refuses e) :
    ∃ g, d.build = .ok g ∧ g.toAcceptingNet false = .error e := by
  unfold refuses at h
  cases hbuild : d.build with
  | error _ => rw [hbuild] at h; cases h
  | ok g =>
    rw [hbuild] at h
    cases hconvert : g.toAcceptingNet false with
    | ok a =>
      simp only [hconvert] at h
      cases h
    | error e' =>
      simp only [hconvert] at h
      exact ⟨g, rfl, by rw [hconvert, of_decide_eq_true h]⟩

end ProcessDeclaration

/-! ## Firing by name -/

namespace Net

variable {n : Net} {names : List String} {ts : List TransitionId} {m m' : Marking}

/-- The transitions `ts` bear these names and can fire one after the other from `x`, which leads to `y`. -/
def Plays (n : Net) (x : Tokens) (names : List String) (ts : List TransitionId) (y : Tokens) : Prop :=
  List.Forall₂ (fun name t => n.bears [name] t) names ts ∧ n.Run x ts y

/-- Lets the transitions with these names `fire` one after the other. -/
def play (n : Net) : List String → Marking → Option (List TransitionId × Marking)
  | [], m => some ([], m)
  | name :: names, m =>
    match n.transitionIds.find? (n.bears [name]) with
    | none => none
    | some t =>
      match n.fire m t with
      | .ok m => (n.play names m).map fun r => (t :: r.1, r.2)
      | .error _ => none

theorem plays_of_play (hn : n.Consistent) (h : n.play names m = some (ts, m')) :
    n.Plays m.tokens names ts m'.tokens := by
  induction names generalizing m ts with
  | nil =>
    cases h
    exact ⟨.nil, .stay _⟩
  | cons name names ih =>
    rw [play] at h
    split at h
    · cases h
    rename_i t ht
    split at h
    · rename_i m₁ hfire
      obtain ⟨⟨us, k⟩, hrest, he⟩ := Option.map_eq_some_iff.1 h
      cases he
      obtain ⟨hnames, hrun⟩ := ih hrest
      obtain ⟨henabled, htokens⟩ := fire_eq_ok hn.mirrored hfire
      exact ⟨.cons (List.find?_some ht) hnames, .fire henabled (htokens ▸ hrun)⟩
    · cases h

/-- What holds after the transitions with these names. -/
theorem exists_of_play (hn : n.Consistent) {check : List TransitionId × Marking → Bool}
    (h : (n.play names m).any check) :
    ∃ ts k, n.Plays m.tokens names ts k.tokens ∧ check (ts, k) := by
  obtain ⟨⟨ts, k⟩, hplay, hcheck⟩ := Option.any_eq_true _ _ |>.1 h
  exact ⟨ts, k, plays_of_play hn hplay, hcheck⟩

/-- Names tell how often transitions with some of them fire. -/
theorem Plays.countP_bears {x y : Tokens} (h : n.Plays x names ts y) (some : List String) :
    ts.countP (n.bears some) = names.countP (some.contains ·) := by
  obtain ⟨hnames, -⟩ := h
  induction hnames with
  | nil => rfl
  | @cons name t names ts ht _ ih =>
    obtain ⟨tr, htr, hname⟩ := bears_iff.1 ht
    rw [List.countP_cons, List.countP_cons, ih, bears, htr, Option.any_some,
      List.mem_singleton.1 hname]

variable {keep own other : PlaceId → Bool} {t : TransitionId}

/-- Some live place with the property is marked. -/
def marks (n : Net) (keep : PlaceId → Bool) (m : Marking) : Bool :=
  n.placeIds.any fun p => keep p && decide (0 < m.tokens p)

theorem exists_of_marks (h : n.marks keep m) : ∃ p, n.hasPlace p ∧ keep p ∧ 0 < m.tokens p := by
  obtain ⟨p, hp, h⟩ := List.any_eq_true.1 h
  obtain ⟨hkeep, hmarked⟩ := Bool.and_eq_true_iff.1 h
  exact ⟨p, mem_placeIds.1 hp, hkeep, of_decide_eq_true hmarked⟩

/-- After the transitions with these names an own place is marked, and so is another place. -/
def strands (n : Net) (own other : PlaceId → Bool) (names : List String) (m : Marking) : Bool :=
  (n.play names m).any fun r => n.marks own r.2 && n.marks (fun q => !own q && other q) r.2

theorem exists_stranded {scope : PlaceId → Prop} (hn : n.Consistent)
    (h : n.strands own other names m) (hscope : ∀ q, n.hasPlace q → other q → scope q) :
    ∃ ts x, n.Plays m.tokens names ts x ∧ Stranded scope (own · = true) x := by
  obtain ⟨ts, k, hplays, h⟩ := exists_of_play hn h
  obtain ⟨hown, hother⟩ := Bool.and_eq_true_iff.1 h
  obtain ⟨p, _, hp, hmarked⟩ := exists_of_marks hown
  obtain ⟨q, hlive, hq, hmarked'⟩ := exists_of_marks hother
  obtain ⟨hq, hq'⟩ := Bool.and_eq_true_iff.1 hq
  refine ⟨ts, k.tokens, hplays, ⟨p, hp, hmarked⟩, fun hswept => ?_⟩
  have hzero : k.tokens q = 0 :=
    hswept q (hscope q hlive hq') (by rwa [Bool.not_eq_true', ← Bool.not_eq_true] at hq)
  exact absurd hmarked' (by rw [hzero]; exact Nat.lt_irrefl 0)

/-- The transition puts a token on an own place and on no other, and takes only last tokens from others. -/
def sweeps (n : Net) (own : PlaceId → Bool) (m : Marking) (t : TransitionId) : Bool :=
  (n.arcs.any fun a => a = .output t a.place && own a.place) &&
    n.arcs.all fun a => own a.place || a ≠ .output t a.place &&
      (a ≠ .input a.place t || m.tokens a.place == 1)

theorem decides_of_sweeps (h : n.sweeps own m t) (scope : PlaceId → Prop) :
    n.Fills (own · = true) t ∧ n.Decides scope (own · = true) m.tokens t := by
  obtain ⟨hfills, hall⟩ := Bool.and_eq_true_iff.1 h
  rw [List.all_eq_true] at hall
  obtain ⟨a, ha, h⟩ := List.any_eq_true.1 hfills
  obtain ⟨he, hown⟩ := Bool.and_eq_true_iff.1 h
  refine ⟨⟨a.place, hown, of_decide_eq_true he ▸ ha⟩, fun q _ hout => ?_, fun q _ hown hin => ?_⟩
  · have := hall _ hout
    simpa [Arc.output] using this
  · have := hall _ hin
    simpa [Arc.input, Arc.output, hown] using this

/-- After the transitions with these names another one can fire and decide; of all of them at most one is
an entry. -/
def settles (n : Net) (own : PlaceId → Bool) (entry names : List String) (m : Marking) : Bool :=
  (n.play names m).any fun r => n.transitionIds.any fun t =>
    n.isEnabled t r.2 && n.sweeps own r.2 t && decide ((r.1 ++ [t]).countP (n.bears entry) ≤ 1)

theorem exists_decides {entry : List String} (hn : n.Consistent) (h : n.settles own entry names m) :
    ∃ ts x t, n.Plays m.tokens names ts x ∧ n.Enabled t x ∧ n.Fills (own · = true) t ∧
      (∀ scope, n.Decides scope (own · = true) x t) ∧ (ts ++ [t]).countP (n.bears entry) ≤ 1 := by
  obtain ⟨ts, k, hplays, h⟩ := exists_of_play hn h
  obtain ⟨t, _, h⟩ := List.any_eq_true.1 h
  obtain ⟨h, honce⟩ := Bool.and_eq_true_iff.1 h
  obtain ⟨henabled, hsweeps⟩ := Bool.and_eq_true_iff.1 h
  exact ⟨ts, k.tokens, t, hplays, (isEnabled_iff hn.mirrored).1 henabled,
    (decides_of_sweeps hsweeps fun _ => True).1, fun scope => (decides_of_sweeps hsweeps scope).2,
    of_decide_eq_true honce⟩

end Net

end ProcessNet
