/-
The token game on the set of arcs: markings as counts without a bound, firing place by place, runs
and the labels that they show. Main statement: on a net whose rows mirror its arcs, firing a
marking gives the counts of this game, as far as counts can be stored.
-/
import ProcessNet.Incidence.Lemmas
import ProcessNet.Marking.Lemmas
import ProcessNet.Net.Firing

namespace ProcessNet

/-- A number of tokens on each place. -/
abbrev Tokens := PlaceId → Nat

namespace Net

/-- A live transition can fire when each of its input places has a token and each of its inhibitor
places has none. -/
structure Enabled (n : Net) (t : TransitionId) (x : Tokens) : Prop where
  live : n.hasTransition t
  marked : ∀ p, Arc.input p t ∈ n.arcs → 0 < x p
  unmarked : ∀ p, Arc.inhibitor p t ∈ n.arcs → x p = 0

/-- The counts after a firing: a reset place is left with what is put into it. -/
def after (n : Net) (t : TransitionId) (x : Tokens) : Tokens := fun p =>
  (if Arc.reset p t ∈ n.arcs then 0 else if Arc.input p t ∈ n.arcs then x p - 1 else x p)
    + if Arc.output t p ∈ n.arcs then 1 else 0

/-- The transitions `ts` can fire one after the other from `x`, and lead to `y`. -/
inductive Run (n : Net) : Tokens → List TransitionId → Tokens → Prop
  | stay (x : Tokens) : Run n x [] x
  | fire {x y : Tokens} {t : TransitionId} {ts : List TransitionId} :
    n.Enabled t x → Run n (n.after t x) ts y → Run n x (t :: ts) y

/-- Some run leads from `x` to `y`. -/
def Reachable (n : Net) (x y : Tokens) : Prop := ∃ ts, n.Run x ts y

/-- The label of a live transition that is not silent. -/
def label? (n : Net) (t : TransitionId) : Option String := (n.transition? t).bind (·.label)

/-- What the transitions show when they fire in this order. -/
def trace (n : Net) (ts : List TransitionId) : List String := ts.filterMap n.label?

/-- The label sequence `w` is shown by some run from `x` to `y`. -/
def Accepts (n : Net) (x y : Tokens) (w : List String) : Prop := ∃ ts, n.Run x ts y ∧ n.trace ts = w

/-! ## Runs -/

theorem Run.append {n : Net} {x y z : Tokens} {ts us : List TransitionId} (h : n.Run x ts y)
    (k : n.Run y us z) : n.Run x (ts ++ us) z := by
  induction h with
  | stay => exact k
  | fire he _ ih => exact .fire he (ih k)

theorem Run.snoc {n : Net} {x y : Tokens} {t : TransitionId} {ts : List TransitionId}
    (h : n.Run x ts y) (he : n.Enabled t y) : n.Run x (ts ++ [t]) (n.after t y) :=
  h.append (.fire he (.stay _))

theorem Run.split {n : Net} {x z : Tokens} {ts us : List TransitionId} (h : n.Run x (ts ++ us) z) :
    ∃ y, n.Run x ts y ∧ n.Run y us z := by
  induction ts generalizing x with
  | nil => exact ⟨x, .stay x, h⟩
  | cons t ts ih =>
    cases h with
    | fire he h =>
      obtain ⟨y, hy, hz⟩ := ih h
      exact ⟨y, .fire he hy, hz⟩

theorem Reachable.refl {n : Net} (x : Tokens) : n.Reachable x x := ⟨[], .stay x⟩

theorem Reachable.trans {n : Net} {x y z : Tokens} :
    n.Reachable x y → n.Reachable y z → n.Reachable x z
  | ⟨_, h⟩, ⟨_, k⟩ => ⟨_, h.append k⟩

/-! ## Rows of transitions -/

theorem mem_transitionArcs {n : Net} (h : n.incidence.Mirrored) {t : TransitionId} {p : PlaceId}
    {k : ArcKind} : (p, k) ∈ n.transitionArcs t ↔ Arc.mk p t k ∈ n.arcs :=
  h.mem_transitionArcs

theorem nodup_transitionArcs {n : Net} (h : n.incidence.Mirrored) (t : TransitionId) :
    (n.transitionArcs t).Nodup :=
  h.nodup_transitionArcs t

theorem mem_transitionInArcs {n : Net} (h : n.incidence.Mirrored) {t : TransitionId} {p : PlaceId}
    {k : ArcKind} : (p, k) ∈ n.transitionInArcs t ↔ k ≠ .output ∧ Arc.mk p t k ∈ n.arcs := by
  rw [transitionInArcs, List.mem_filter, mem_transitionArcs h, and_comm]
  cases k <;> simp [ArcKind.isPlaceToTransition]

/-- The places of the row entries of one kind are all different. -/
theorem nodup_places {l : List (PlaceId × ArcKind)} (h : l.Nodup) (k : ArcKind) :
    ((l.filter (·.2 = k)).map (·.1)).Nodup := by
  refine List.pairwise_map.2 ((h.filter _).imp_of_mem fun {a b} ha hb hab he => hab ?_)
  have ha := of_decide_eq_true (List.mem_filter.1 ha).2
  have hb := of_decide_eq_true (List.mem_filter.1 hb).2
  exact Prod.ext he (ha.trans hb.symm)

/-- What is found for a place in a list that gives one token to each of some places. -/
theorem lookup_ones {ps : List PlaceId} {q : PlaceId} :
    ((ps.map fun p => (p, 1)).lookup q).getD 0 = if q ∈ ps then 1 else 0 := by
  induction ps with
  | nil => rfl
  | cons p ps ih =>
    rw [List.map_cons, Marking.lookup_cons]
    by_cases h : q = p
    · simp [h]
    · simp [h, ih]

/-! ## Agreement with firing -/

theorem isEnabled_iff {n : Net} (h : n.incidence.Mirrored) {t : TransitionId} {m : Marking} :
    n.isEnabled t m ↔ n.Enabled t m.tokens := by
  rw [isEnabled, Bool.and_eq_true, List.all_eq_true]
  constructor
  · rintro ⟨hlive, hall⟩
    refine ⟨hlive, fun p hp => ?_, fun p hp => ?_⟩
    · exact of_decide_eq_true (hall (p, .input) ((mem_transitionInArcs h).2 ⟨by decide, hp⟩))
    · exact of_decide_eq_true (hall (p, .inhibitor) ((mem_transitionInArcs h).2 ⟨by decide, hp⟩))
  · rintro ⟨hlive, hin, hno⟩
    refine ⟨hlive, fun ⟨p, k⟩ hpk => ?_⟩
    have ha := ((mem_transitionInArcs h).1 hpk).2
    cases k with
    | input => exact decide_eq_true (hin p ha)
    | inhibitor => exact decide_eq_true (hno p ha)
    | reset => rfl
    | output => rfl

theorem mem_inPlaces {n : Net} (h : n.incidence.Mirrored) {t : TransitionId} {p : PlaceId}
    {k : ArcKind} (hk : k ≠ .output) :
    p ∈ ((n.transitionInArcs t).filter (·.2 = k)).map (·.1) ↔ Arc.mk p t k ∈ n.arcs := by
  rw [List.mem_map]
  constructor
  · rintro ⟨e, he, rfl⟩
    obtain ⟨hmem, hk⟩ := List.mem_filter.1 he
    exact of_decide_eq_true hk ▸ ((mem_transitionInArcs h).1 hmem).2
  · exact fun ha =>
      ⟨(p, k), List.mem_filter.2 ⟨(mem_transitionInArcs h).2 ⟨hk, ha⟩, decide_eq_true rfl⟩, rfl⟩

theorem mem_outPlaces {n : Net} (h : n.incidence.Mirrored) {t : TransitionId} {p : PlaceId} :
    p ∈ n.transitionOutArcs t ↔ Arc.output t p ∈ n.arcs := by
  rw [transitionOutArcs, List.mem_map]
  constructor
  · rintro ⟨e, he, rfl⟩
    obtain ⟨hmem, hk⟩ := List.mem_filter.1 he
    have hmem := (mem_transitionArcs h).1 hmem
    rwa [of_decide_eq_true hk] at hmem
  · exact fun ha =>
      ⟨(p, .output), List.mem_filter.2 ⟨(mem_transitionArcs h).2 ha, decide_eq_true rfl⟩, rfl⟩

/-- What a firing leaves on a place before it puts tokens. -/
theorem tokens_cleared {n : Net} (h : n.incidence.Mirrored) {t : TransitionId} (m : Marking)
    (q : PlaceId) :
    ((m.removeAll (((n.transitionInArcs t).filter (·.2 = .input)).map fun e => (e.1, 1))).clearAll
      (((n.transitionInArcs t).filter (·.2 = .reset)).map (·.1))).tokens q =
    if Arc.reset q t ∈ n.arcs then 0 else if Arc.input q t ∈ n.arcs then m.tokens q - 1
      else m.tokens q := by
  have hrow := nodup_transitionArcs h t
  have hin : ((n.transitionInArcs t).filter (·.2 = .input)).map (fun e => (e.1, 1))
      = (((n.transitionInArcs t).filter (·.2 = .input)).map (·.1)).map fun p => (p, 1) := by
    rw [List.map_map]
    rfl
  have fsts : ∀ ps : List PlaceId, (ps.map fun p => (p, 1)).map (·.1) = ps := by
    simp [Function.comp_def]
  rw [Marking.tokens_clearAll, hin,
    Marking.tokens_removeAll (by rw [fsts]; exact nodup_places (hrow.filter _) .input), lookup_ones]
  simp only [mem_inPlaces h (k := .reset) (by decide), mem_inPlaces h (k := .input) (by decide),
    Arc.reset, Arc.input]
  by_cases hr : Arc.mk q t .reset ∈ n.arcs
  · simp [hr]
  · by_cases hi : Arc.mk q t .input ∈ n.arcs <;> simp [hr, hi]

/-- The counts of the marking after a firing are those of the token game. -/
theorem tokens_successor {n : Net} (h : n.incidence.Mirrored) {t : TransitionId} {m m' : Marking}
    (hm : n.successor m t = .ok m') : m'.tokens = n.after t m.tokens := by
  have fsts : ∀ ps : List PlaceId, (ps.map fun p => (p, 1)).map (·.1) = ps := by
    simp [Function.comp_def]
  funext p
  simp only [successor] at hm
  rw [Marking.tokens_addAll (by rw [fsts]; exact nodup_places (nodup_transitionArcs h t) .output) hm,
    lookup_ones, tokens_cleared h, after]
  simp only [mem_outPlaces h]

theorem canonical_successor {n : Net} {t : TransitionId} {m m' : Marking} (h : m.Canonical)
    (hm : n.successor m t = .ok m') : m'.Canonical :=
  h.removeAll.clearAll.addAll hm

/-- Firing succeeds only for enabled transitions, and then plays the token game. -/
theorem fire_eq_ok {n : Net} (h : n.incidence.Mirrored) {t : TransitionId} {m m' : Marking}
    (hm : n.fire m t = .ok m') : n.Enabled t m.tokens ∧ m'.tokens = n.after t m.tokens := by
  simp only [fire] at hm
  split at hm
  · cases hm
  · split at hm
    · cases hm
    · rename_i he
      split at hm
      · rename_i hs
        cases hm
        exact ⟨(isEnabled_iff h).1 (by simpa using he), tokens_successor h hs⟩
      · cases hm

/-- Firings one after the other are a run. -/
theorem run_of_foldlM_fire {n : Net} (h : n.incidence.Mirrored) {ts : List TransitionId}
    {m m' : Marking} (hm : ts.foldlM n.fire m = .ok m') : n.Run m.tokens ts m'.tokens := by
  induction ts generalizing m with
  | nil =>
    cases hm
    exact .stay _
  | cons t ts ih =>
    rw [List.foldlM_cons] at hm
    cases hfire : n.fire m t with
    | error e => rw [hfire] at hm; cases hm
    | ok m₁ =>
      rw [hfire] at hm
      obtain ⟨he, htokens⟩ := fire_eq_ok h hfire
      exact .fire he (htokens ▸ ih hm)

end Net

end ProcessNet
