/-
Places whose tokens clear a scope. Whatever puts a token on one of them takes from or resets the other
places of the scope, so it leaves there only what its own input places keep and what it puts there
itself. Where it takes the last tokens and puts nothing else there, only these places are marked, and
that lasts: tokens come into the scope by its entry or from within, and what takes from these places
leads out of it.
-/
import ProcessNet.Proofs.Net.Gate

namespace ProcessNet.Net

variable {n : Net} {scope own : PlaceId → Prop} {enter : TransitionId → Bool} {x y : Tokens}
  {t : TransitionId} {p q : PlaceId} {ts us vs : List TransitionId}

/-- What puts a token on an own place takes from or resets every other place of the scope. -/
def Clears (n : Net) (scope own : PlaceId → Prop) : Prop :=
  ∀ p t, own p → Arc.output t p ∈ n.arcs → ∀ q, scope q → ¬ own q →
    Arc.input q t ∈ n.arcs ∨ Arc.reset q t ∈ n.arcs

/-- What brings a token into the scope takes one from there, apart from the entry. -/
def Fed (n : Net) (enter : TransitionId → Bool) (scope : PlaceId → Prop) : Prop :=
  ∀ q t, scope q → Arc.output t q ∈ n.arcs → enter t ∨ ∃ p, scope p ∧ Arc.input p t ∈ n.arcs

/-- What takes from an own place leads out of the scope. -/
def Leaves (n : Net) (scope own : PlaceId → Prop) : Prop :=
  ∀ p t, own p → Arc.input p t ∈ n.arcs → ∀ q, scope q → Arc.output t q ∉ n.arcs

/-- The transition puts a token on an own place. -/
def Fills (n : Net) (own : PlaceId → Prop) (t : TransitionId) : Prop :=
  ∃ p, own p ∧ Arc.output t p ∈ n.arcs

/-- Fired at `x`, the transition takes the last tokens of the places of the scope that it takes from,
and puts tokens on own places only. -/
structure Decides (n : Net) (scope own : PlaceId → Prop) (x : Tokens) (t : TransitionId) : Prop where
  alone : ∀ q, scope q → Arc.output t q ∈ n.arcs → own q
  last : ∀ q, scope q → ¬ own q → Arc.input q t ∈ n.arcs → x q = 1

/-- Along the run of `ts` from `x` the last firing that puts a token on an own place decides. -/
def LastDecides (n : Net) (scope own : PlaceId → Prop) (x : Tokens) (ts : List TransitionId) : Prop :=
  ∀ us t vs y, ts = us ++ t :: vs → n.Run x us y → n.Fills own t → (∀ v ∈ vs, ¬ n.Fills own v) →
    n.Decides scope own y t

/-- Nothing is left in the scope but what is on own places. -/
def Swept (scope own : PlaceId → Prop) (x : Tokens) : Prop :=
  ∀ q, scope q → ¬ own q → x q = 0

/-- An own place is marked, but something else is left in the scope. -/
def Stranded (scope own : PlaceId → Prop) (x : Tokens) : Prop :=
  (∃ p, own p ∧ 0 < x p) ∧ ¬ Swept scope own x

/-- Of what was on a place of the scope only what an input keeps is left. -/
theorem Clears.after_le (h : n.Clears scope own) (hfills : n.Fills own t) (hq : scope q)
    (hown : ¬ own q) (x : Tokens) :
    n.after t x q ≤ (if Arc.input q t ∈ n.arcs then x q - 1 else 0) +
      if Arc.output t q ∈ n.arcs then 1 else 0 := by
  obtain ⟨p, hp, hout⟩ := hfills
  rcases h p t hp hout q hq hown with hin | hreset
  · unfold after
    rw [if_pos hin, if_pos hin]
    split <;> omega
  · unfold after
    rw [if_pos hreset]
    omega

theorem Clears.after_swept (h : n.Clears scope own) (hfills : n.Fills own t)
    (hdecides : n.Decides scope own x t) : Swept scope own (n.after t x) := by
  intro q hq hown
  have hkept := h.after_le hfills hq hown x
  rw [if_neg fun hout => hown (hdecides.alone q hq hout)] at hkept
  split at hkept
  · rename_i hin
    have := hdecides.last q hq hown hin
    omega
  · omega

/-- Where only own places are marked, no firing but the entry brings a token into the scope. -/
theorem Swept.not_output (hfed : n.Fed enter scope) (hleaves : n.Leaves scope own)
    (hx : Swept scope own x) (he : n.Enabled t x) (ht : enter t = false) (hq : scope q) :
    Arc.output t q ∉ n.arcs := by
  intro hout
  rcases hfed q t hq hout with henter | ⟨p, hp, hin⟩
  · rw [ht] at henter
    cases henter
  · by_cases hown : own p
    · exact hleaves p t hown hin q hq hout
    · have := he.marked p hin
      have := hx p hp hown
      omega

theorem Swept.run (hfed : n.Fed enter scope) (hleaves : n.Leaves scope own)
    (hx : Swept scope own x) (hrun : n.Run x ts y) (hts : ∀ t ∈ ts, enter t = false) :
    Swept scope own y := by
  induction hrun with
  | stay => exact hx
  | @fire x y t ts he _ ih =>
    refine ih (fun q hq hown => ?_) fun u hu => hts u (List.mem_cons_of_mem _ hu)
    have hle := Net.after_le (x := x)
      (hx.not_output hfed hleaves he (hts t List.mem_cons_self) hq)
    have := hx q hq hown
    omega

theorem swept_of_empty (hx : ∀ q, scope q → x q = 0) : Swept scope (fun _ => False) x :=
  fun q hq _ => hx q hq

/-- Without its entry an empty scope stays empty. -/
theorem empty_of_run (hfed : n.Fed enter scope) (hrun : n.Run x ts y) (hx : ∀ q, scope q → x q = 0)
    (hts : ∀ t ∈ ts, enter t = false) : ∀ q, scope q → y q = 0 := fun q hq =>
  (swept_of_empty hx).run hfed (fun _ _ => False.elim) hrun hts q hq id

/-- Of the firings that put a token on an own place one is the last. -/
theorem exists_last_fills (hrun : n.Run x ts y) (hts : ∃ t ∈ ts, n.Fills own t) :
    ∃ us t vs z, ts = us ++ t :: vs ∧ n.Run x us z ∧ n.Enabled t z ∧ n.Run (n.after t z) vs y ∧
      n.Fills own t ∧ ∀ v ∈ vs, ¬ n.Fills own v := by
  induction hrun with
  | stay => exact absurd hts fun ⟨_, ht, _⟩ => List.not_mem_nil ht
  | @fire x y t ts he hrun ih =>
    by_cases hrest : ∃ u ∈ ts, n.Fills own u
    · obtain ⟨us, u, vs, z, rfl, hus, hu, hvs⟩ := ih hrest
      exact ⟨t :: us, u, vs, z, rfl, .fire he hus, hu, hvs⟩
    · have hnone : ∀ u ∈ ts, ¬ n.Fills own u := fun u hu hfills => hrest ⟨u, hu, hfills⟩
      obtain ⟨u, hu, hfills⟩ := hts
      rcases List.mem_cons.1 hu with rfl | hu
      · exact ⟨[], u, ts, x, rfl, .stay x, he, hrun, hfills, hnone⟩
      · exact absurd hfills (hnone u hu)

/-- Along a run that enters an empty scope at most once and whose last firing that puts a token on an own
place decides, a token on an own place means that nothing else is left in the scope. -/
theorem Clears.swept_of_run (h : n.Clears scope own) (hfed : n.Fed enter scope)
    (hleaves : n.Leaves scope own) (hown : ∀ p, own p → scope p) (hx : ∀ q, scope q → x q = 0)
    (hrun : n.Run x ts y) (honce : ts.countP enter ≤ 1) (hlast : n.LastDecides scope own x ts)
    (hp : own p) (hmarked : 0 < y p) : Swept scope own y := by
  have hfilled : ∃ t ∈ ts, n.Fills own t := Classical.byContradiction fun hnot => by
    have hzero := eq_zero_of_run hrun (fun u hu hout => hnot ⟨u, hu, p, hp, hout⟩)
      (hx p (hown p hp))
    omega
  obtain ⟨us, t, vs, z, rfl, hus, he, hvs, hfills, hnone⟩ := exists_last_fills hrun hfilled
  have hdecides := hlast us t vs z rfl hus hfills hnone
  refine (h.after_swept hfills hdecides).run hfed hleaves hvs fun v hv => ?_
  -- The scope was entered before this firing or by it.
  have hentered : 0 < (us ++ [t]).countP enter := by
    refine List.countP_pos_iff.2 (Classical.byContradiction fun hnot => ?_)
    obtain ⟨p, hp, hout⟩ := hfills
    have hnever : ∀ u ∈ us ++ [t], enter u = false := fun u hu =>
      Bool.eq_false_iff.2 fun hu' => hnot ⟨u, hu, hu'⟩
    have hempty := empty_of_run hfed hus hx fun u hu => hnever u (List.mem_append_left _ hu)
    exact (swept_of_empty hempty).not_output hfed (fun _ _ => False.elim) he
      (hnever t (List.mem_append_right _ List.mem_cons_self)) (hown p hp) hout
  rw [List.append_cons, List.countP_append] at honce
  have hnot := List.countP_eq_zero.1 (by omega : vs.countP enter = 0) v hv
  exact Bool.eq_false_iff.2 hnot

/-- A run leads to one end. -/
theorem Run.unique {z : Tokens} (hy : n.Run x ts y) (hz : n.Run x ts z) : y = z := by
  induction hy with
  | stay =>
    cases hz
    rfl
  | fire _ _ ih =>
    cases hz with
    | fire _ hz => exact ih hz

/-- What puts a token on an own place leaves one of them marked. -/
theorem Fills.exists_marked (h : n.Fills own t) (x : Tokens) : ∃ p, own p ∧ 0 < n.after t x p := by
  obtain ⟨p, hp, hout⟩ := h
  refine ⟨p, hp, ?_⟩
  rw [after, if_pos hout]
  omega

/-- If the last firing of a run decides, the last one that puts a token on an own place does. -/
theorem lastDecides_of_run (hrun : n.Run x us y) (hfills : n.Fills own t)
    (hdecides : n.Decides scope own y t) : n.LastDecides scope own x (us ++ [t]) := by
  intro us' t' vs z hts hrun' _ hnone
  rcases List.eq_nil_or_concat vs with rfl | ⟨rest, u, rfl⟩
  · obtain ⟨rfl, ht⟩ := List.append_inj' hts rfl
    cases ht
    exact hrun.unique hrun' ▸ hdecides
  · rw [List.concat_eq_append, ← List.cons_append, ← List.append_assoc] at hts
    obtain ⟨_, hu⟩ := List.append_inj' hts rfl
    cases hu
    exact absurd hfills (hnone t (by simp))

end ProcessNet.Net
