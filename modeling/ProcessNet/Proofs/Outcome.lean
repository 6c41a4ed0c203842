/-
Outcomes of steps that may fail and leave a state in either case. What is claimed of a composed step
follows from what is claimed of its parts; a loop keeps a claim that tells how much of its list is
left.
-/
import Mathlib.Data.List.Forall2
import ProcessNet.Fault

namespace ProcessNet

variable {ε σ α β : Type}

/-- A success fulfils `post`, a failure fulfils `fail`. -/
def Ends (post : α → σ → Prop) (fail : ε → σ → Prop) : EStateM.Result ε σ α → Prop
  | .ok a s => post a s
  | .error e s => fail e s

theorem Ends.imp {post post' : α → σ → Prop} {fail fail' : ε → σ → Prop}
    {r : EStateM.Result ε σ α} (h : Ends post fail r) (hpost : ∀ a s, post a s → post' a s)
    (hfail : ∀ e s, fail e s → fail' e s) : Ends post' fail' r := by
  cases r with
  | ok a s => exact hpost a s h
  | error e s => exact hfail e s h

/-! ## Sequences -/

theorem Ends.bind {m : EStateM ε σ α} {f : α → EStateM ε σ β} {s : σ} {post : β → σ → Prop}
    {fail : ε → σ → Prop} (h : Ends (fun a s' => Ends post fail (f a s')) fail (m s)) :
    Ends post fail ((m >>= f) s) := by
  cases hm : m s with
  | ok a s' =>
    rw [hm] at h
    rw [bind_of_ok hm]
    exact h
  | error e s' =>
    rw [hm] at h
    rw [bind_of_error hm]
    exact h

/-! ## Loops -/

/-- A claim about the list that is left and the state is kept by a loop, if each turn keeps it. -/
theorem Ends.forM {f : α → EStateM ε σ PUnit} {C : List α → σ → Prop} {fail : ε → σ → Prop}
    (hturn : ∀ a l s, C (a :: l) s → Ends (fun _ s' => C l s') fail (f a s)) {l : List α}
    {s : σ} (h : C l s) : Ends (fun _ s' => C [] s') fail (l.forM f s) := by
  induction l generalizing s with
  | nil => exact h
  | cons a l ih =>
    rw [List.forM]
    exact Ends.bind ((hturn a l s h).imp (fun _ _ h' => ih h') fun _ _ he => he)

theorem Ends.foldlM {f : β → α → EStateM ε σ β} {C : List α → β → σ → Prop}
    {fail : ε → σ → Prop}
    (hturn : ∀ a l b s, C (a :: l) b s → Ends (fun b' s' => C l b' s') fail (f b a s))
    {l : List α} {b : β} {s : σ} (h : C l b s) :
    Ends (fun b' s' => C [] b' s') fail (l.foldlM f b s) := by
  induction l generalizing b s with
  | nil => exact h
  | cons a l ih =>
    rw [List.foldlM_cons]
    exact Ends.bind ((hturn a l b s h).imp (fun _ _ h' => ih h') fun _ _ he => he)

section Preorder

variable {R : σ → σ → Prop}

/-- A loop that succeeds is in a preorder that all its turns are in. -/
theorem rel_of_forM (hrefl : ∀ s, R s s) (htrans : ∀ s₁ s₂ s₃, R s₁ s₂ → R s₂ s₃ → R s₁ s₃)
    {f : α → EStateM ε σ PUnit} {l : List α}
    (hturn : ∀ a ∈ l, ∀ s s', f a s = .ok () s' → R s s') {s s' : σ}
    (h : l.forM f s = .ok () s') : R s s' := by
  induction l generalizing s with
  | nil =>
    cases h
    exact hrefl _
  | cons a l ih =>
    rw [List.forM] at h
    obtain ⟨_, s₁, ha, hl⟩ := bind_eq_ok.1 h
    exact htrans _ _ _ (hturn a List.mem_cons_self _ _ ha)
      (ih (fun b hb => hturn b (List.mem_cons_of_mem _ hb)) hl)

/-- What a loop that succeeds does for one member of its list, with what comes before and behind. -/
theorem exists_of_mem_forM (hrefl : ∀ s, R s s) (htrans : ∀ s₁ s₂ s₃, R s₁ s₂ → R s₂ s₃ → R s₁ s₃)
    {f : α → EStateM ε σ PUnit} {l : List α}
    (hturn : ∀ a ∈ l, ∀ s s', f a s = .ok () s' → R s s') {s s' : σ}
    (h : l.forM f s = .ok () s') {a : α} (ha : a ∈ l) :
    ∃ s₁ s₂, R s s₁ ∧ f a s₁ = .ok () s₂ ∧ R s₂ s' := by
  induction l generalizing s with
  | nil => cases ha
  | cons b l ih =>
    rw [List.forM] at h
    obtain ⟨_, t, hb, hl⟩ := bind_eq_ok.1 h
    have hturn' : ∀ a ∈ l, ∀ s s', f a s = .ok () s' → R s s' :=
      fun a ha => hturn a (List.mem_cons_of_mem _ ha)
    rcases List.mem_cons.1 ha with rfl | ha
    · exact ⟨s, t, hrefl s, hb, rel_of_forM hrefl htrans hturn' hl⟩
    · obtain ⟨s₁, s₂, h₁, ha', h₂⟩ := ih hturn' hl ha
      exact ⟨s₁, s₂, htrans _ _ _ (hturn b List.mem_cons_self _ _ hb) h₁, ha', h₂⟩

/-- The same for a loop that gathers answers, answer by answer. -/
theorem forall₂_of_mapM (hrefl : ∀ s, R s s) (htrans : ∀ s₁ s₂ s₃, R s₁ s₂ → R s₂ s₃ → R s₁ s₃)
    {f : α → EStateM ε σ β} {l : List α} (hturn : ∀ a ∈ l, ∀ s b s', f a s = .ok b s' → R s s')
    {s s' : σ} {bs : List β} (h : l.mapM f s = .ok bs s') :
    R s s' ∧ List.Forall₂ (fun a b => ∃ s₁ s₂, R s s₁ ∧ f a s₁ = .ok b s₂ ∧ R s₂ s') l bs := by
  induction l generalizing s bs with
  | nil =>
    rw [List.mapM_nil] at h
    cases h
    exact ⟨hrefl _, .nil⟩
  | cons b l ih =>
    rw [List.mapM_cons] at h
    obtain ⟨x, t, hb, h⟩ := bind_eq_ok.1 h
    obtain ⟨xs, t', hl, h⟩ := bind_eq_ok.1 h
    cases h
    have hfirst := hturn b List.mem_cons_self _ _ _ hb
    obtain ⟨hrest, hall⟩ := ih (fun a ha => hturn a (List.mem_cons_of_mem _ ha)) hl
    refine ⟨htrans _ _ _ hfirst hrest, .cons ⟨s, t, hrefl s, hb, hrest⟩ (hall.imp ?_)⟩
    rintro a y ⟨s₁, s₂, h₁, hf, h₂⟩
    exact ⟨s₁, s₂, htrans _ _ _ hfirst h₁, hf, h₂⟩

end Preorder

/-! ## Steps without a state -/

/-- An answer fulfils `post`, an error fulfils `fail`. -/
def Yields (post : α → Prop) (fail : ε → Prop) : Except ε α → Prop
  | .ok a => post a
  | .error e => fail e

theorem except_bind_eq_ok {r : Except ε α} {f : α → Except ε β} {b : β} :
    r >>= f = .ok b ↔ ∃ a, r = .ok a ∧ f a = .ok b := by
  cases r with
  | ok a => simp [bind, Except.bind]
  | error e => exact iff_of_false nofun fun ⟨_, h, _⟩ => nomatch h

theorem Yields.imp {post post' : α → Prop} {fail : ε → Prop} {r : Except ε α}
    (h : Yields post fail r) (hpost : ∀ a, post a → post' a) : Yields post' fail r := by
  cases r with
  | ok a => exact hpost a h
  | error e => exact h

theorem Yields.bind {r : Except ε α} {f : α → Except ε β} {post : β → Prop} {fail : ε → Prop}
    (h : Yields (fun a => Yields post fail (f a)) fail r) : Yields post fail (r >>= f) := by
  cases r with
  | ok a => exact h
  | error e => exact h

theorem Yields.foldlM {f : β → α → Except ε β} {C : List α → β → Prop} {fail : ε → Prop}
    (hturn : ∀ a l b, C (a :: l) b → Yields (C l) fail (f b a)) {l : List α} {b : β}
    (h : C l b) : Yields (C []) fail (l.foldlM f b) := by
  induction l generalizing b with
  | nil => exact h
  | cons a l ih =>
    rw [List.foldlM_cons]
    exact Yields.bind ((hturn a l b h).imp fun _ h' => ih h')

/-- The answer for one member of the list. -/
theorem exists_of_forall₂ {r : α → β → Prop} {l : List α} {bs : List β} (h : List.Forall₂ r l bs)
    {a : α} (ha : a ∈ l) : ∃ b ∈ bs, r a b := by
  obtain ⟨i, hi, rfl⟩ := List.mem_iff_getElem.1 ha
  have hi' : i < bs.length := h.length_eq ▸ hi
  exact ⟨bs[i], List.getElem_mem hi', h.get hi hi'⟩

end ProcessNet
