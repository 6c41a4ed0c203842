/-
Where the tokens of the initial marking go. Tokens only ever move from a place that is fused to the place
that it is fused with, and they are dropped only with a place that is merged into an equal one or removed as
a self-loop. The one addition is that of a fusion, and it overflows just if the tokens of both places are
more than a count can tell.
-/
import ProcessNet.Proofs.Reduction.Bound
import ProcessNet.Proofs.Reduction.Removal

namespace ProcessNet

open Finset

/-- The places that the step drops together with their tokens. -/
def ReductionStep.droppedPlaces : ReductionStep → List String
  | .parallelPlacesFused _ removed => removed
  | .selfLoopPlaceRemoved place => [place]
  | _ => []

/-- Amounts by places, after all that was on `p` has been moved to `q`. -/
theorem sum_moved {S : Finset PlaceId} {home : PlaceId → PlaceId} {f : PlaceId → Nat} {p q : PlaceId}
    (hne : q ≠ p) (r : PlaceId) :
    (∑ x ∈ S, if (if home x = p then q else home x) = r then f x else 0) =
      if r = p then 0 else (∑ x ∈ S, if home x = r then f x else 0) +
        if r = q then ∑ x ∈ S, if home x = p then f x else 0 else 0 := by
  by_cases hp : r = p
  · rw [if_pos hp]
    refine sum_eq_zero fun x _ => if_neg fun he => ?_
    split at he
    · exact hne (he.trans hp)
    · rename_i hx
      exact hx (he.trans hp)
  rw [if_neg hp]
  by_cases hq : r = q
  · rw [if_pos hq, ← sum_add_distrib]
    refine sum_congr rfl fun x _ => ?_
    by_cases hx : home x = p
    · rw [if_pos hx, if_pos hq.symm, if_pos hx, if_neg fun he => hp (he.symm.trans hx), Nat.zero_add]
    · rw [if_neg hx, if_neg hx, Nat.add_zero]
  · rw [if_neg hq, Nat.add_zero]
    refine sum_congr rfl fun x _ => ?_
    by_cases hx : home x = p
    · rw [if_pos hx, if_neg (Ne.symm hq), if_neg fun he => hp (he.symm.trans hx)]
    · rw [if_neg hx]

namespace AcceptingNet

/-- Where the initial tokens of `a` are in `a'`: those of each place `p` are on `home p`, unless this place
is among those that were dropped with their tokens. -/
structure Accounted (a : AcceptingNet) (home : PlaceId → PlaceId) (dropped : List PlaceId)
    (a' : AcceptingNet) : Prop where
  /-- The places that are left are places of `a`. -/
  left : ∀ q x, a'.net.place? q = some x → a.net.place? q = some x
  tokens : ∀ q, q ∉ dropped → a'.initial.tokens q =
    ∑ p ∈ a.initial.places.toFinset, if home p = q then a.initial.tokens p else 0
  gone : ∀ q ∈ dropped, a.net.hasPlace q ∧ ¬ a'.net.hasPlace q ∧ a'.initial.tokens q = 0
  /-- Tokens of live places have not stayed behind on a place that is gone. -/
  placed : ∀ p, a.net.hasPlace p → a.initial.tokens p ≠ 0 →
    a'.net.hasPlace (home p) ∨ home p ∈ dropped

namespace Accounted

variable {a a₁ a' : AcceptingNet} {home : PlaceId → PlaceId} {dropped : List PlaceId} {p q d : PlaceId}

theorem refl (a : AcceptingNet) : Accounted a id [] a where
  left _ _ := id
  tokens q _ := by
    simp only [id_eq]
    rw [sum_ite_eq']
    split
    · rfl
    · rename_i hq
      by_contra hne
      exact hq (List.mem_toFinset.2 (Marking.mem_places_of_tokens hne))
  gone _ hq := absurd hq List.not_mem_nil
  placed _ hp _ := .inl hp

theorem hasPlace (h : Accounted a home dropped a₁) (hq : a₁.net.hasPlace q) :
    a.net.hasPlace q ∧ q ∉ dropped ∧ a.net.placeName q = a₁.net.placeName q := by
  obtain ⟨x, hx⟩ := Net.hasPlace_iff.1 hq
  have hx' := h.left q x hx
  refine ⟨Net.hasPlace_iff.2 ⟨x, hx'⟩, fun hmem => (h.gone q hmem).2.1 hq, ?_⟩
  rw [Net.placeName_eq hx, Net.placeName_eq hx']

/-- The place where the tokens of `p` are holds at least these. -/
theorem tokens_le (h : Accounted a home dropped a₁) (hp : a.initial.tokens p ≠ 0)
    (hhome : home p ∉ dropped) : a.initial.tokens p ≤ a₁.initial.tokens (home p) := by
  rw [h.tokens _ hhome]
  refine le_trans (le_of_eq (if_pos rfl).symm) (single_le_sum (fun _ _ => Nat.zero_le _)
    (List.mem_toFinset.2 (Marking.mem_places_of_tokens hp)) (f := fun r =>
      if home r = home p then a.initial.tokens r else 0))

/-- The places stay, with their tokens. -/
theorem same (h : Accounted a home dropped a₁) (hinitial : a'.initial = a₁.initial)
    (hplace : ∀ q, a'.net.place? q = a₁.net.place? q) : Accounted a home dropped a' where
  left q x hx := h.left q x ((hplace q).symm.trans hx)
  tokens q hq := hinitial ▸ h.tokens q hq
  gone q hq := by
    obtain ⟨hlive, hgone, hzero⟩ := h.gone q hq
    refine ⟨hlive, ?_, hinitial ▸ hzero⟩
    rwa [Net.hasPlace, hplace]
  placed p hp htokens := by
    rw [Net.hasPlace, hplace]
    exact h.placed p hp htokens

theorem left_of_gone (h : Accounted a home dropped a₁)
    (hplace : ∀ q, a'.net.place? q = if q = d then none else a₁.net.place? q) (q : PlaceId) (x : Place)
    (hx : a'.net.place? q = some x) : a.net.place? q = some x := by
  rw [hplace] at hx
  split at hx
  · cases hx
  · exact h.left q x hx

/-- A place that bears no token may go. -/
theorem unmarked (h : Accounted a home dropped a₁) (hd : a₁.initial.tokens d = 0)
    (hinitial : a'.initial = a₁.initial)
    (hplace : ∀ q, a'.net.place? q = if q = d then none else a₁.net.place? q) :
    Accounted a home dropped a' where
  left := h.left_of_gone hplace
  tokens q hq := hinitial ▸ h.tokens q hq
  gone q hq := by
    obtain ⟨hlive, hgone, hzero⟩ := h.gone q hq
    exact ⟨hlive, fun hq' => hgone ((Net.hasPlace_iff_of_gone hplace).1 hq').1, hinitial ▸ hzero⟩
  placed p hp htokens := by
    by_cases hhome : home p ∈ dropped
    · exact .inr hhome
    · have hlive := (h.placed p hp htokens).resolve_right hhome
      have hle := h.tokens_le htokens hhome
      have hne : home p ≠ d := fun he => htokens (Nat.eq_zero_of_le_zero (hd ▸ he ▸ hle))
      exact .inl ((Net.hasPlace_iff_of_gone hplace).2 ⟨hlive, hne⟩)

/-- A place is dropped with its tokens. -/
theorem drop (h : Accounted a home dropped a₁) (hd : a₁.net.hasPlace d)
    (hinitial : a'.initial = (a₁.initial.take d).2)
    (hplace : ∀ q, a'.net.place? q = if q = d then none else a₁.net.place? q) :
    Accounted a home (dropped ++ [d]) a' := by
  have hlive : ∀ q, a'.net.hasPlace q ↔ a₁.net.hasPlace q ∧ q ≠ d := fun q =>
    Net.hasPlace_iff_of_gone hplace
  refine ⟨h.left_of_gone hplace, fun q hq => ?_, fun q hq => ?_, fun p hp htokens => ?_⟩
  · obtain ⟨hq, hne⟩ := not_or.1 fun he => hq (List.mem_append.2 he)
    rw [hinitial, Marking.tokens_take_of_ne fun he => hne (List.mem_singleton.2 he), h.tokens q hq]
  · rw [hinitial, Marking.tokens_take, hlive]
    rcases List.mem_append.1 hq with hq | hq
    · obtain ⟨hlive', hgone, hzero⟩ := h.gone q hq
      exact ⟨hlive', fun hq' => hgone hq'.1, by rw [hzero, ite_self]⟩
    · obtain rfl := List.mem_singleton.1 hq
      exact ⟨(h.hasPlace hd).1, fun hq' => hq'.2 rfl, if_pos rfl⟩
  · rcases h.placed p hp htokens with hhome | hhome
    · by_cases he : home p = d
      · exact .inr (List.mem_append_right _ (List.mem_singleton.2 he))
      · exact .inl ((hlive _).2 ⟨hhome, he⟩)
    · exact .inr (List.mem_append_left _ hhome)

/-- The tokens of `p` move to `q`, and `p` goes. -/
theorem move (h : Accounted a home dropped a₁) (hp : a₁.net.hasPlace p) (hq : a₁.net.hasPlace q)
    (hne : q ≠ p) (hmove : a₁.initial.moveAll p q = .ok a'.initial)
    (hplace : ∀ r, a'.net.place? r = if r = p then none else a₁.net.place? r) :
    Accounted a (fun r => if home r = p then q else home r) dropped a' := by
  have hlive : ∀ r, a'.net.hasPlace r ↔ a₁.net.hasPlace r ∧ r ≠ p := fun r =>
    Net.hasPlace_iff_of_gone hplace
  have hp' := (h.hasPlace hp).2.1
  refine ⟨h.left_of_gone hplace, fun r hr => ?_, fun r hr => ?_, fun r hr htokens => ?_⟩
  · rw [Marking.tokens_moveAll hne hmove, h.tokens p hp', h.tokens r hr, sum_moved hne]
  · -- neither of the two places is among those that were dropped
    obtain ⟨hlive', hgone, hzero⟩ := h.gone r hr
    have hrp : r ≠ p := fun he => hp' (he ▸ hr)
    have hrq : r ≠ q := fun he => (h.hasPlace hq).2.1 (he ▸ hr)
    refine ⟨hlive', fun hr' => hgone ((hlive r).1 hr').1, ?_⟩
    rw [Marking.tokens_moveAll hne hmove, if_neg hrp, if_neg hrq, hzero]
  · by_cases he : home r = p
    · rw [if_pos he]
      exact .inl ((hlive q).2 ⟨hq, hne⟩)
    · rw [if_neg he]
      exact (h.placed r hr htokens).imp_left fun hhome => (hlive _).2 ⟨hhome, he⟩

end Accounted

variable {a a₁ a' : AcceptingNet} {home : PlaceId → PlaceId} {dropped : List PlaceId}

/-- Places that `FPP` merges are dropped one after the other. -/
theorem Dropped.accounted {k : PlaceId} {l : List PlaceId} (hn : a₁.net.Consistent)
    (h : Accounted a home dropped a₁) (hdrop : Dropped (TwinPlaceGone k) l a₁ a') :
    Accounted a home (dropped ++ l) a' := by
  induction hdrop generalizing dropped with
  | nil => rwa [List.append_nil]
  | @cons d l a₁ a₂ a' hd _ ih =>
    have hfirst := h.drop (hd.gone.hasPlace hn) hd.initial hd.gone.place?
    have hrest := ih hd.gone.consistent hfirst
    rwa [List.append_assoc] at hrest

/-- `FPT` leaves all places and their tokens alone. -/
theorem Dropped.keeps_places {k : TransitionId} {l : List TransitionId}
    (h : Dropped (TwinTransitionGone k) l a a') :
    a'.initial = a.initial ∧ ∀ q, a'.net.place? q = a.net.place? q := by
  induction h with
  | nil a => exact ⟨rfl, fun _ => rfl⟩
  | cons hd _ ih =>
    exact ⟨ih.1.trans hd.initial, fun q => (ih.2 q).trans (hd.gone.place? q)⟩

/-- A step drops tokens only with the places that `FPP` or `ELP` reports. -/
theorem Rewritten.accounted {step : ReductionStep} (hn : a₁.net.Consistent)
    (h : Accounted a home dropped a₁) (hstep : a₁.Rewritten step a') :
    ∃ home' dropped', Accounted a home' dropped' a' ∧
      dropped'.map a.net.placeName = dropped.map a.net.placeName ++ step.droppedPlaces := by
  have hmirrored := hn.mirrored
  have hnone : ∀ step : ReductionStep, step.droppedPlaces = [] → Accounted a home dropped a' →
      ∃ home' dropped', Accounted a home' dropped' a' ∧
        dropped'.map a.net.placeName = dropped.map a.net.placeName ++ step.droppedPlaces :=
    fun step hdropped h' => ⟨home, dropped, h', by rw [hdropped, List.append_nil]⟩
  cases hstep with
  | seriesTransitions hm hf =>
    have hunmarked := (seriesTransitionsAt?_eq_some hmirrored hm).2.1
    exact hnone _ rfl (h.unmarked (tokens_of_not_isMarked hunmarked).1 rfl hf.place?)
  | silentStep hm hf =>
    have hunmarked := (silentStepAt?_eq_some hmirrored hm).1
    exact hnone _ rfl (h.unmarked (tokens_of_not_isMarked hunmarked).1 rfl hf.place?)
  | seriesPlaces hm hf hmove =>
    have hsite := (seriesPlacesAt?_eq_some_iff hmirrored).1 hm
    have hsecond := hn.livePlace _ ((hsite.output _).2 rfl)
    refine ⟨_, dropped, h.move (hn.livePlace _ hf.input) hsecond hsite.ne.symm hmove hf.place?, ?_⟩
    exact (List.append_nil _).symm
  | parallelTransitions _ hd =>
    obtain ⟨hinitial, hplace⟩ := hd.keeps_places
    exact hnone _ rfl (h.same hinitial hplace)
  | @parallelPlaces m _ _ hd =>
    refine ⟨home, dropped ++ m.removed, hd.accounted hn h, ?_⟩
    rw [List.map_append]
    refine congrArg _ (List.map_congr_left fun d hd' => ?_)
    exact (h.hasPlace ((hd.stripped_places hn).1 d hd')).2.2
  | selfLoopTransition _ hgone => exact hnone _ rfl (h.same rfl hgone.place?)
  | selfLoopPlace _ hgone =>
    have hlive := hgone.hasPlace hn
    refine ⟨home, dropped ++ [_], h.drop hlive rfl hgone.place?, ?_⟩
    rw [List.map_append, List.map_singleton, (h.hasPlace hlive).2.2]
    rfl
  | reset _ _ hgone => exact hnone _ rfl (h.same rfl hgone.nodes.place?)

end AcceptingNet

/-! ## Reductions -/

namespace Reduction

open AcceptingNet

variable {s₀ s : Reduction}

theorem Rewrites.accounted (hs₀ : s₀.net.Consistent) (h : Rewrites s₀ s) :
    ∃ home dropped l, Accounted s₀.accepting home dropped s.accepting ∧ s.steps = s₀.steps ++ l ∧
      dropped.map s₀.net.placeName = l.flatMap ReductionStep.droppedPlaces := by
  refine (h.induct (I := fun s => ∃ home dropped l,
    Accounted s₀.accepting home dropped s.accepting ∧ s.steps = s₀.steps ++ l ∧
      dropped.map s₀.net.placeName = l.flatMap ReductionStep.droppedPlaces) hs₀
    ⟨id, [], [], .refl _, (List.append_nil _).symm, rfl⟩ ?_).2
  rintro s₁ s₂ hs₁ ⟨home, dropped, l, haccounted, hl, hnames⟩ ⟨step, hstep, hsteps⟩
  obtain ⟨home', dropped', haccounted', hnames'⟩ := hstep.accounted hs₁ haccounted
  refine ⟨home', dropped', l ++ [step], haccounted', by rw [hsteps, hl, List.append_assoc], ?_⟩
  rw [List.flatMap_append, List.flatMap_singleton, ← hnames]
  exact hnames'

end Reduction

namespace AcceptingNet

open Reduction

/-- In `reduce` nothing but `FSP` can fail for a count, and only in a net of which the initial marking
holds more tokens than a count can tell: what is left then accounts for the tokens of all places but the
one that was about to be fused. Whenever no count overflows, the net that is left accounts for all
tokens; those that are dropped are dropped with the places that the report tells. -/
theorem reduce_accounts_for_tokens (a : AcceptingNet) (options : ReductionOptions)
    (hnet : a.net.checkConsistency = .ok ()) (hnodup : a.net.arcs.Nodup) :
    (∀ f, (a.reduce options).report = .error (.net (.fault f)) →
      f = .countOverflow ∧ maxCount < a.initial.total ∧
      ∃ s home dropped, Rewrites { accepting := a } s ∧ Accounted a home dropped s.accepting ∧
        s.accepting.Overfull ∧ s.accepting.Spilled (a.reduce options).accepting) ∧
    ((∀ f, (a.reduce options).report ≠ .error (.net (.fault f))) →
      ∃ home dropped, Accounted a home dropped (a.reduce options).accepting ∧
        ∀ report, (a.reduce options).report = .ok report →
          dropped.map a.net.placeName = report.steps.flatMap ReductionStep.droppedPlaces) := by
  have hstart : ({ accepting := a } : Reduction).net.Consistent :=
    (Net.consistent_iff_checkConsistency hnodup).2 hnet
  have hends := ends_complete options hstart
  cases hrun : complete options { accepting := a } with
  | ok report s =>
    rw [hrun] at hends
    rw [reduce_of_complete hrun]
    obtain ⟨home, dropped, l, haccounted, hl, hnames⟩ := Rewrites.accounted hstart hends.2
    rw [List.nil_append, ← (passes_of_complete hrun).1] at hl
    subst hl
    refine ⟨fun f hf => ?_, fun _ => ⟨home, dropped, haccounted, fun report' hreport => ?_⟩⟩
    · cases hf
    · cases hreport
      exact hnames
  | error e s =>
    rw [hrun] at hends
    rw [reduce_of_error hrun]
    cases hends with
    | @overflow s₁ _ h hfull _ hspilled =>
      -- up to the fusion that fails, all tokens are accounted for
      obtain ⟨home, dropped, -, haccounted, -⟩ := Rewrites.accounted hstart h
      have hmirrored := (h.consistent hstart).mirrored
      have htotal := (total_lt_of_overfull hmirrored hfull).trans_le (h.total_le hstart)
      refine ⟨fun f hf => ?_, fun hnot => absurd rfl (hnot _)⟩
      cases hf
      exact ⟨rfl, htotal, s₁, home, dropped, h, haccounted, hfull, hspilled⟩
    | @objection _ step _ _ _ _ h =>
      obtain ⟨home, dropped, -, haccounted, -⟩ := Rewrites.accounted hstart h
      refine ⟨fun f hf => ?_, fun _ => ⟨home, dropped, haccounted, fun report hreport => ?_⟩⟩
      · cases hf
      · cases hreport

/-- In the workshop `FSP` moves the two tokens of the place "start", and `FPP` drops the one of "spare". -/
theorem workshop_accounts_for_tokens : workshop.initial.tokens ⟨0⟩ = 2 ∧
    tidied.initial.tokens ⟨1⟩ = 2 ∧
    ∃ home dropped, Accounted workshop home dropped tidied ∧
      dropped.map workshop.net.placeName = ["spare"] := by
  obtain ⟨-, h⟩ := reduce_accounts_for_tokens workshop workshopOptions (by decide +kernel) (by decide)
  rw [reduce_workshop] at h
  obtain ⟨home, dropped, haccounted, hnames⟩ := h fun f hf => by cases hf
  exact ⟨by decide, by decide, home, dropped, haccounted, hnames _ rfl⟩

/-- A silent step from a place that is as full as can be to a place that is not empty. -/
def brimful : AcceptingNet where
  net := {
    places := ⟨[some { name := "p" }, some { name := "q" }]⟩
    transitions := ⟨[some { name := "t" }]⟩
    incidence := {
      arcs := [.input ⟨0⟩ ⟨0⟩, .output ⟨0⟩ ⟨1⟩]
      byPlace := ⟨[[(⟨0⟩, .input)], [(⟨0⟩, .output)]]⟩
      byTransition := ⟨[[(⟨0⟩, .input), (⟨1⟩, .output)]]⟩ }
    placeNames := ⟨[("p", ⟨0⟩), ("q", ⟨1⟩)]⟩
    transitionNames := ⟨[("t", ⟨0⟩)]⟩ }
  initial := ⟨[(⟨0⟩, maxCount), (⟨1⟩, 1)]⟩
  final := ⟨[(⟨1⟩, 1)]⟩

/-- What the fusion leaves of it: `q` cannot hold the tokens of both, and those of `p` are gone with `p`. -/
def spilt : AcceptingNet where
  net := {
    places := ⟨[none, some { name := "q" }]⟩
    transitions := ⟨[none]⟩
    incidence := { arcs := [], byPlace := ⟨[[], []]⟩, byTransition := ⟨[[]]⟩ }
    placeNames := ⟨[("q", ⟨1⟩)]⟩ }
  initial := ⟨[(⟨1⟩, 1)]⟩
  final := ⟨[(⟨1⟩, 1)]⟩

theorem brimful_overflows : brimful.net.checkConsistency = .ok () ∧
    brimful.reduce {} = ⟨spilt, .error (.net (.fault .countOverflow))⟩ ∧
    brimful.initial.tokens ⟨0⟩ = maxCount ∧ spilt.net.hasPlace ⟨0⟩ = false ∧
    spilt.initial.total = 1 := by
  let start : Reduction := { accepting := brimful }
  -- the transition is gone, then the first place, then its tokens
  let severed : Reduction := start.withNet {
    places := ⟨[some { name := "p" }, some { name := "q" }]⟩
    transitions := ⟨[none]⟩
    incidence := { arcs := [], byPlace := ⟨[[], []]⟩, byTransition := ⟨[[]]⟩ }
    placeNames := ⟨[("p", ⟨0⟩), ("q", ⟨1⟩)]⟩ }
  let bared : Reduction := start.withNet spilt.net
  let emptied : Reduction := { accepting := spilt }
  have hfuse : fuseSeriesPlaces ⟨0⟩ ⟨⟨0⟩, ⟨1⟩⟩ start =
      .error (.net (.fault .countOverflow)) emptied := by
    have htransition : removeTransition ⟨0⟩ start = .ok () severed := by rfl
    have hplace : removePlace ⟨0⟩ severed = .ok () bared := by rfl
    have htake : takeInitial ⟨0⟩ bared = .ok maxCount emptied := by rfl
    have hfull : spilt.initial.add ⟨1⟩ maxCount = .error .countOverflow := by decide
    have hadd : addInitial ⟨1⟩ maxCount emptied = .error (.net (.fault .countOverflow)) emptied := by
      rw [addInitial, get_bind, hfull]
      rfl
    unfold fuseSeriesPlaces
    rw [get_bind, bind_of_ok htransition, bind_of_ok hplace, bind_of_ok (by rfl), bind_of_ok htake,
      if_pos (by decide), bind_of_error hadd]
  have hfst : runRule none .fst start = .ok 0 start := by
    change drain seriesTransitions _ [⟨0⟩, ⟨1⟩] 0 _ = _
    rw [drain_cons_of_none (by rfl), drain_cons_of_none (by rfl), drain_nil]
  have hfsp : runRule none .fsp start = .error (.net (.fault .countOverflow)) emptied := by
    change drain seriesPlaces _ [⟨0⟩] 0 _ = _
    have hm : seriesPlaces.match? brimful ⟨0⟩ = some ⟨⟨0⟩, ⟨1⟩⟩ := by rfl
    refine drain_cons_of_error hm ?_
    unfold LocalRule.perform
    rw [get_bind]
    exact bind_of_error hfuse
  have hrun : complete {} start = .error (.net (.fault .countOverflow)) emptied := by
    unfold complete
    refine bind_of_error ?_
    refine passes_of_error ?_
    rw [Reduction.pass, Rule.order, List.foldlM_cons,
      bind_of_ok (turn_of_runs (by rfl) hfst), List.foldlM_cons, bind_of_error]
    rw [turn, get_bind, if_pos (by rfl)]
    exact bind_of_error hfsp
  exact ⟨by decide, reduce_of_error hrun, by decide, by decide, by decide⟩

end AcceptingNet

end ProcessNet
