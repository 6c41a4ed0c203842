/-
Redundant parts of a net, which can be left out without a change of the language: a silent transition
whose effect can be had without it, a place that always holds as many tokens as another one with the
same arcs, and a reset arc at a place that has to be empty anyhow. A place that never runs empty is
not redundant in this sense: as long as it is there, no marking without it can be reached.
-/
import ProcessNet.Proofs.Net.Consistent
import ProcessNet.Proofs.Net.Simulation

namespace ProcessNet.Net

variable {n n' : Net}

/-! ## Transitions with the same arcs -/

/-- The transition `t` of `n` and the transition `u` of `n'` have the same arcs. -/
def SameArcs (n : Net) (t : TransitionId) (n' : Net) (u : TransitionId) : Prop :=
  ∀ p k, Arc.mk p t k ∈ n.arcs ↔ Arc.mk p u k ∈ n'.arcs

/-- A firing does the same to the same number of tokens at the same arcs. -/
theorem after_congr {t u : TransitionId} {p q : PlaceId} {x y : Tokens}
    (h : ∀ k, k ≠ .inhibitor → (Arc.mk p t k ∈ n.arcs ↔ Arc.mk q u k ∈ n'.arcs))
    (hx : x p = y q) : n.after t x p = n'.after u y q := by
  unfold after
  rw [hx]
  exact congrArg₂ _
    (if_congr (h .reset (by decide)) rfl (if_congr (h .input (by decide)) rfl rfl))
    (if_congr (h .output (by decide)) rfl rfl)

theorem SameArcs.after_eq {t u : TransitionId} (h : SameArcs n t n' u) (x : Tokens) :
    n.after t x = n'.after u x :=
  funext fun p => after_congr (fun k _ => h p k) rfl

theorem SameArcs.enabled {t u : TransitionId} {x : Tokens} (h : SameArcs n t n' u)
    (hlive : n'.hasTransition u) (he : n.Enabled t x) : n'.Enabled u x :=
  ⟨hlive, fun p hp => he.marked p ((h p .input).2 hp),
    fun p hp => he.unmarked p ((h p .inhibitor).2 hp)⟩

/-! ## Removing a transition -/

namespace TransitionGone

variable {d : TransitionId}

theorem sameArcs (h : TransitionGone n d n') {t : TransitionId} (ht : t ≠ d) :
    SameArcs n t n' t :=
  fun p k => ((h.mem_arcs ⟨p, t, k⟩).trans (and_iff_left ht)).symm

theorem hasTransition_iff (h : TransitionGone n d n') {t : TransitionId} :
    n'.hasTransition t ↔ n.hasTransition t ∧ t ≠ d := by
  rw [hasTransition, h.transition?]
  by_cases ht : t = d
  · simp [ht]
  · rw [if_neg ht, hasTransition, and_iff_left ht]

theorem label?_eq (h : TransitionGone n d n') {t : TransitionId} (ht : t ≠ d) :
    n'.label? t = n.label? t := by
  rw [label?, label?, h.transition?, if_neg ht]

theorem simulates_back (h : TransitionGone n d n') : n'.Simulates n Eq := by
  rintro x _ t rfl he
  obtain ⟨hlive, ht⟩ := h.hasTransition_iff.1 he.live
  have hsame : SameArcs n' t n t := fun p k => (h.sameArcs ht p k).symm
  refine ⟨[t], _, .fire (hsame.enabled hlive he) (.stay _), ?_, hsame.after_eq x⟩
  rw [trace_cons, trace_cons, h.label?_eq ht]
  rfl

theorem dominates (h : TransitionGone n d n') (x : Tokens) : n.Dominates x n' x :=
  h.simulates_back.dominates rfl fun _ _ he p => Nat.le_of_eq (congrFun he p)

/-- A silent transition is redundant if a silent run without it has the same effect. -/
theorem accepts_iff (h : TransitionGone n d n') (hsilent : n.label? d = none)
    (hdetour : ∀ x, n.Enabled d x → ∃ us, n'.Run x us (n.after d x) ∧ n'.trace us = [])
    {x y : Tokens} {w : List String} : n.Accepts x y w ↔ n'.Accepts x y w := by
  have hforth : n.Simulates n' Eq := by
    rintro x _ t rfl he
    by_cases ht : t = d
    · subst ht
      obtain ⟨us, hrun, htr⟩ := hdetour x he
      refine ⟨us, _, hrun, ?_, rfl⟩
      rw [htr, trace_cons, hsilent]
      rfl
    · have hlive := h.hasTransition_iff.2 ⟨he.live, ht⟩
      refine ⟨[t], _, .fire ((h.sameArcs ht).enabled hlive he) (.stay _), ?_,
        (h.sameArcs ht).after_eq x⟩
      rw [trace_cons, trace_cons, h.label?_eq ht]
      rfl
  exact ⟨hforth.accepts rfl fun _ he => he.symm, h.simulates_back.accepts rfl fun _ he => he.symm⟩

/-- Of two silent transitions with the same arcs one is redundant. -/
theorem accepts_iff_of_twin (h : TransitionGone n d n') {t : TransitionId} (hne : t ≠ d)
    (ht : n.isSilent t) (hd : n.isSilent d) (hsame : SameArcs n d n t) {x y : Tokens}
    {w : List String} : n.Accepts x y w ↔ n'.Accepts x y w := by
  obtain ⟨hlive, hsilent⟩ := isSilent_iff.1 ht
  refine h.accepts_iff (isSilent_iff.1 hd).2 fun x he => ?_
  have hsame' : SameArcs n d n' t := fun p k => (hsame p k).trans (h.sameArcs hne p k)
  refine ⟨[t], ?_, ?_⟩
  · rw [hsame'.after_eq]
    exact .fire (hsame'.enabled (h.hasTransition_iff.2 ⟨hlive, hne⟩) he) (.stay _)
  · rw [trace_cons, h.label?_eq hne, hsilent]
    rfl

/-- A silent transition that only puts back what it takes is redundant. -/
theorem accepts_iff_of_selfLoop (h : TransitionGone n d n') {p : PlaceId} (hd : n.isSilent d)
    (hin : ∀ q k, k ≠ .output → (Arc.mk q d k ∈ n.arcs ↔ q = p ∧ k = .input))
    (hout : ∀ q, Arc.output d q ∈ n.arcs ↔ q = p) {x y : Tokens} {w : List String} :
    n.Accepts x y w ↔ n'.Accepts x y w := by
  refine h.accepts_iff (isSilent_iff.1 hd).2 fun x he => ⟨[], ?_, rfl⟩
  have hstill : n.after d x = x := by
    funext q
    have hreset : Arc.reset q d ∉ n.arcs := fun hr => nomatch ((hin q .reset (by decide)).1 hr).2
    have hinput : Arc.input q d ∈ n.arcs ↔ q = p := by
      rw [Arc.input, hin q .input (by decide), and_iff_left rfl]
    unfold after
    simp only [if_neg hreset, hinput, hout]
    by_cases hq : q = p
    · have := he.marked q (hinput.2 hq)
      rw [if_pos hq, if_pos hq]
      omega
    · rw [if_neg hq, if_neg hq, Nat.add_zero]
  rw [hstill]
  exact .stay x

end TransitionGone

/-! ## Removing a place -/

/-- The counts without those of `d`. -/
def without (d : PlaceId) (x : Tokens) : Tokens := fun q => if q = d then 0 else x q

theorem tokens_take (m : Marking) (p : PlaceId) : (m.take p).2.tokens = without p m.tokens :=
  funext fun _ => Marking.tokens_take

namespace PlaceGone

variable {d : PlaceId}

theorem label?_eq (h : PlaceGone n d n') (t : TransitionId) : n'.label? t = n.label? t := by
  rw [label?, label?, h.transition?]

theorem hasTransition_eq (h : PlaceGone n d n') (t : TransitionId) :
    n'.hasTransition t = n.hasTransition t := by
  rw [hasTransition, hasTransition, h.transition?]

theorem without_of_ne {q : PlaceId} (hq : q ≠ d) (x : Tokens) : without d x q = x q := if_neg hq

theorem enabled_without (h : PlaceGone n d n') {t : TransitionId} {x : Tokens}
    (he : n.Enabled t x) : n'.Enabled t (without d x) := by
  refine ⟨h.hasTransition_eq t ▸ he.live, fun q hq => ?_, fun q hq => ?_⟩
  · obtain ⟨hq, hne⟩ := (h.mem_arcs _).1 hq
    rw [without_of_ne (q := q) hne]
    exact he.marked q hq
  · obtain ⟨hq, hne⟩ := (h.mem_arcs _).1 hq
    rw [without_of_ne (q := q) hne]
    exact he.unmarked q hq

theorem after_without (h : PlaceGone n d n') (t : TransitionId) (x : Tokens) :
    n'.after t (without d x) = without d (n.after t x) := by
  funext q
  by_cases hq : q = d
  · have hnone : ∀ k, Arc.mk q t k ∉ n'.arcs := fun k hb => ((h.mem_arcs _).1 hb).2 hq
    have hzero : ∀ z, without d z q = 0 := fun z => if_pos hq
    rw [hzero]
    have hr : Arc.reset q t ∉ n'.arcs := hnone .reset
    have hi : Arc.input q t ∉ n'.arcs := hnone .input
    have ho : Arc.output t q ∉ n'.arcs := hnone .output
    unfold after
    rw [if_neg hr, if_neg hi, if_neg ho, hzero]
  · rw [without_of_ne hq]
    exact after_congr (fun k _ => (h.mem_arcs _).trans (and_iff_left hq)) (without_of_ne hq x)

/-- A firing without `d` is one with `d`, if `d` does not stand in its way. -/
theorem enabled_of_without (h : PlaceGone n d n') {t : TransitionId} {x : Tokens}
    (he : n'.Enabled t (without d x)) (hin : Arc.input d t ∈ n.arcs → 0 < x d)
    (hno : Arc.inhibitor d t ∈ n.arcs → x d = 0) : n.Enabled t x := by
  refine ⟨h.hasTransition_eq t ▸ he.live, fun q hq => ?_, fun q hq => ?_⟩
  · by_cases hqd : q = d
    · exact hqd ▸ hin (hqd ▸ hq)
    · rw [← without_of_ne hqd x]
      exact he.marked q ((h.mem_arcs _).2 ⟨hq, hqd⟩)
  · by_cases hqd : q = d
    · exact hqd ▸ hno (hqd ▸ hq)
    · rw [← without_of_ne hqd x]
      exact he.unmarked q ((h.mem_arcs _).2 ⟨hq, hqd⟩)

/-- As long as `d` stands in the way of no firing, runs without `d` are runs with `d`. -/
theorem simulates_back (h : PlaceGone n d n') {P : Tokens → Prop}
    (hmarked : ∀ t x, P x → n'.Enabled t (without d x) → Arc.input d t ∈ n.arcs → 0 < x d)
    (hunmarked : ∀ t x, P x → n'.Enabled t (without d x) → Arc.inhibitor d t ∈ n.arcs → x d = 0)
    (hafter : ∀ t x, P x → P (n.after t x)) :
    n'.Simulates n fun y x => P x ∧ y = without d x := by
  rintro _ x t ⟨hx, rfl⟩ he
  have he' := h.enabled_of_without he (hmarked t x hx he) (hunmarked t x hx he)
  refine ⟨[t], _, .fire he' (.stay _), ?_, hafter t x hx, h.after_without t x⟩
  rw [trace_cons, trace_cons, h.label?_eq]
  rfl

theorem without_le (d : PlaceId) (x : Tokens) (p : PlaceId) : without d x p ≤ x p := by
  unfold without
  split
  · exact Nat.zero_le _
  · exact Nat.le_refl _

section Twin

variable {k : PlaceId}

theorem after_twin (hsame : ∀ t κ, Arc.mk d t κ ∈ n.arcs ↔ Arc.mk k t κ ∈ n.arcs)
    (t : TransitionId) (x : Tokens) (hx : x d = x k) : n.after t x d = n.after t x k :=
  after_congr (fun κ _ => hsame t κ) hx

theorem simulates_back_of_twin (h : PlaceGone n d n') (hne : k ≠ d)
    (hsame : ∀ t κ, Arc.mk d t κ ∈ n.arcs ↔ Arc.mk k t κ ∈ n.arcs) :
    n'.Simulates n fun y x => x d = x k ∧ y = without d x := by
  refine h.simulates_back (P := fun x => x d = x k) (fun t x hx he hd => ?_)
    (fun t x hx he hd => ?_) (after_twin hsame)
  · rw [hx, ← without_of_ne hne x]
    exact he.marked k ((h.mem_arcs _).2 ⟨(hsame t .input).1 hd, hne⟩)
  · rw [hx, ← without_of_ne hne x]
    exact he.unmarked k ((h.mem_arcs _).2 ⟨(hsame t .inhibitor).1 hd, hne⟩)

theorem dominates_of_twin (h : PlaceGone n d n') (hne : k ≠ d)
    (hsame : ∀ t κ, Arc.mk d t κ ∈ n.arcs ↔ Arc.mk k t κ ∈ n.arcs) {x : Tokens}
    (hx : x d = x k) : n.Dominates x n' (without d x) := by
  refine (h.simulates_back_of_twin hne hsame).dominates ⟨hx, rfl⟩ ?_
  rintro _ x ⟨_, rfl⟩ p
  exact without_le d x p

/-- Of two places with the same arcs and the same tokens one is redundant. -/
theorem accepts_iff_of_twin (h : PlaceGone n d n') (hne : k ≠ d)
    (hsame : ∀ t κ, Arc.mk d t κ ∈ n.arcs ↔ Arc.mk k t κ ∈ n.arcs) {x y : Tokens}
    (hx : x d = x k) (hy : y d = y k) {w : List String} :
    n.Accepts x y w ↔ n'.Accepts (without d x) (without d y) w := by
  have hforth : n.Simulates n' fun x y => x d = x k ∧ y = without d x := by
    rintro x _ t ⟨hx, rfl⟩ he
    refine ⟨[t], _, .fire (h.enabled_without he) (.stay _), ?_, after_twin hsame t x hx,
      h.after_without t x⟩
    rw [trace_cons, trace_cons, h.label?_eq]
    rfl
  constructor
  · exact hforth.accepts ⟨hx, rfl⟩ fun _ he => he.2
  · refine (h.simulates_back_of_twin hne hsame).accepts ⟨hx, rfl⟩ fun z hz => ?_
    -- the tokens on `d` at the end are those on `k`
    funext q
    have hrest : ∀ r, r ≠ d → z r = y r := by
      intro r hr
      have := congrFun hz.2 r
      rw [without_of_ne hr, without_of_ne hr] at this
      exact this.symm
    by_cases hq : q = d
    · rw [hq, hz.1, hy, hrest k hne]
    · exact hrest q hq

end Twin

end PlaceGone

/-! ## Removing a reset arc -/

section Reset

variable {p : PlaceId} {t : TransitionId}

theorem mem_of_ne_reset (hmem : ∀ b, b ∈ n'.arcs ↔ b ∈ n.arcs ∧ b ≠ Arc.reset p t) {q : PlaceId}
    {u : TransitionId} {k : ArcKind} (hk : k ≠ .reset) :
    Arc.mk q u k ∈ n'.arcs ↔ Arc.mk q u k ∈ n.arcs := by
  rw [hmem, and_iff_left]
  intro he
  cases he
  exact hk rfl

theorem enabled_iff_of_ne_reset (hnodes : SameNodes n n')
    (hmem : ∀ b, b ∈ n'.arcs ↔ b ∈ n.arcs ∧ b ≠ Arc.reset p t) {u : TransitionId} {x : Tokens} :
    n'.Enabled u x ↔ n.Enabled u x := by
  have hother : ∀ q k, k ≠ .reset → (Arc.mk q u k ∈ n'.arcs ↔ Arc.mk q u k ∈ n.arcs) :=
    fun q k hk => mem_of_ne_reset hmem hk
  constructor
  · exact fun he => ⟨hnodes.hasTransition u ▸ he.live,
      fun q hq => he.marked q ((hother q .input (by decide)).2 hq),
      fun q hq => he.unmarked q ((hother q .inhibitor (by decide)).2 hq)⟩
  · exact fun he => ⟨hnodes.hasTransition u ▸ he.live,
      fun q hq => he.marked q ((hother q .input (by decide)).1 hq),
      fun q hq => he.unmarked q ((hother q .inhibitor (by decide)).1 hq)⟩

theorem after_eq_of_needlessReset (hmem : ∀ b, b ∈ n'.arcs ↔ b ∈ n.arcs ∧ b ≠ Arc.reset p t)
    (hin : Arc.inhibitor p t ∈ n.arcs) {u : TransitionId} {x : Tokens} (he : n.Enabled u x) :
    n'.after u x = n.after u x := by
  funext q
  have hi : Arc.input q u ∈ n'.arcs ↔ Arc.input q u ∈ n.arcs := mem_of_ne_reset hmem (by decide)
  have ho : Arc.output u q ∈ n'.arcs ↔ Arc.output u q ∈ n.arcs := mem_of_ne_reset hmem (by decide)
  by_cases hq : Arc.reset q u = Arc.reset p t
  · cases hq
    have hx := he.unmarked p hin
    simp only [after, hx, Nat.zero_sub, ite_self]
    exact congrArg _ (if_congr ho rfl rfl)
  · have hr : Arc.reset q u ∈ n'.arcs ↔ Arc.reset q u ∈ n.arcs := by
      rw [hmem, and_iff_left hq]
    refine after_congr (fun k hk => ?_) rfl
    cases k with
    | input => exact hi
    | output => exact ho
    | reset => exact hr
    | inhibitor => exact absurd rfl hk

theorem SameNodes.trace_eq (h : SameNodes n n') (us : List TransitionId) :
    n'.trace us = n.trace us := by
  refine List.filterMap_congr fun u _ => ?_
  rw [label?, label?, h.transition?]

theorem simulates_back_of_needlessReset (hnodes : SameNodes n n')
    (hmem : ∀ b, b ∈ n'.arcs ↔ b ∈ n.arcs ∧ b ≠ Arc.reset p t) (hin : Arc.inhibitor p t ∈ n.arcs) :
    n'.Simulates n Eq := by
  rintro x _ u rfl he
  have he' := (enabled_iff_of_ne_reset hnodes hmem).1 he
  exact ⟨[u], _, .fire he' (.stay _), (hnodes.trace_eq _).symm,
    after_eq_of_needlessReset hmem hin he'⟩

theorem dominates_of_needlessReset (hnodes : SameNodes n n')
    (hmem : ∀ b, b ∈ n'.arcs ↔ b ∈ n.arcs ∧ b ≠ Arc.reset p t) (hin : Arc.inhibitor p t ∈ n.arcs)
    (x : Tokens) : n.Dominates x n' x :=
  (simulates_back_of_needlessReset hnodes hmem hin).dominates rfl
    fun _ _ he p => Nat.le_of_eq (congrFun he p)

/-- A reset arc is redundant where an inhibitor arc needs the place to be empty. -/
theorem accepts_iff_of_needlessReset (hnodes : SameNodes n n')
    (hmem : ∀ b, b ∈ n'.arcs ↔ b ∈ n.arcs ∧ b ≠ Arc.reset p t) (hin : Arc.inhibitor p t ∈ n.arcs)
    {x y : Tokens} {w : List String} : n.Accepts x y w ↔ n'.Accepts x y w := by
  have hforth : n.Simulates n' Eq := by
    rintro x _ u rfl he
    exact ⟨[u], _, .fire ((enabled_iff_of_ne_reset hnodes hmem).2 he) (.stay _), hnodes.trace_eq _,
      (after_eq_of_needlessReset hmem hin he).symm⟩
  exact ⟨hforth.accepts rfl fun _ he => he.symm,
    (simulates_back_of_needlessReset hnodes hmem hin).accepts rfl fun _ he => he.symm⟩

end Reset

/-! ## Places that never run empty -/

section Refilled

variable {p : PlaceId}

/-- A place never runs empty if whatever takes from it or empties it puts a token into it. -/
theorem after_pos_of_refilled
    (h : ∀ t k, k ≠ .output → Arc.mk p t k ∈ n.arcs → Arc.output t p ∈ n.arcs) (t : TransitionId)
    (x : Tokens) (hx : 0 < x p) : 0 < n.after t x p := by
  unfold after
  by_cases ho : Arc.output t p ∈ n.arcs
  · rw [if_pos ho]
    omega
  · have hreset : Arc.reset p t ∉ n.arcs := fun hr => ho (h t .reset (by decide) hr)
    have hinput : Arc.input p t ∉ n.arcs := fun hi => ho (h t .input (by decide) hi)
    rw [if_neg hreset, if_neg hinput]
    omega

theorem run_pos_of_refilled
    (h : ∀ t k, k ≠ .output → Arc.mk p t k ∈ n.arcs → Arc.output t p ∈ n.arcs) {x y : Tokens}
    {ts : List TransitionId} (hx : 0 < x p) (hrun : n.Run x ts y) : 0 < y p := by
  induction hrun with
  | stay => exact hx
  | fire _ _ ih => exact ih (after_pos_of_refilled h _ _ hx)

/-- So no marking without it is ever reached. -/
theorem not_accepts_of_refilled
    (h : ∀ t k, k ≠ .output → Arc.mk p t k ∈ n.arcs → Arc.output t p ∈ n.arcs) {x y : Tokens}
    (hx : 0 < x p) (hy : y p = 0) (w : List String) : ¬ n.Accepts x y w := by
  rintro ⟨ts, hrun, _⟩
  have := run_pos_of_refilled h hx hrun
  omega

/-- But whatever is reached without the place could be reached with it, if it inhibits nothing. -/
theorem PlaceGone.dominates_of_refilled (hgone : PlaceGone n p n')
    (h : ∀ t k, k ≠ .output → Arc.mk p t k ∈ n.arcs → Arc.output t p ∈ n.arcs)
    (hno : ∀ t, Arc.inhibitor p t ∉ n.arcs) {x : Tokens} (hx : 0 < x p) :
    n.Dominates x n' (without p x) := by
  have hback := hgone.simulates_back (P := fun x => 0 < x p) (fun _ _ hx _ _ => hx)
    (fun t _ _ _ hi => absurd hi (hno t)) (after_pos_of_refilled h)
  refine hback.dominates ⟨hx, rfl⟩ ?_
  rintro _ x ⟨_, rfl⟩ q
  exact PlaceGone.without_le p x q

end Refilled

end ProcessNet.Net
