/-
Markings seen as counts: what each operation does to the tokens of each place, that the operations
keep markings canonical, and that canonical markings with equal counts are equal.
-/
import ProcessNet.Marking.Basic

namespace ProcessNet.Marking

/-! ## Entries -/

theorem lookup_cons {q r : PlaceId} {k : Nat} {es : List (PlaceId × Nat)} :
    ((r, k) :: es).lookup q = if q = r then some k else es.lookup q := by
  by_cases h : q = r
  · simp [h]
  · rw [List.lookup_cons, beq_false_of_ne h, if_neg h]

theorem lookup_insertEntry {p q : PlaceId} {n : Nat} {es : List (PlaceId × Nat)} :
    (insertEntry p n es).lookup q = if q = p then some n else es.lookup q := by
  induction es with
  | nil => rw [insertEntry, lookup_cons]
  | cons e es ih =>
    obtain ⟨r, k⟩ := e
    simp only [insertEntry]
    split
    · rw [lookup_cons]
    · split
      · rename_i hr
        have hr : p = r := Identifier.index_inj.1 hr
        subst hr
        simp only [lookup_cons]
        split <;> rfl
      · rename_i hlt hne
        have hr : r ≠ p := fun e => hne (e ▸ rfl)
        simp only [lookup_cons, ih]
        by_cases h : q = r
        · simp [h, hr]
        · simp [h]

theorem lookup_eraseEntry {p q : PlaceId} {es : List (PlaceId × Nat)} :
    (eraseEntry p es).lookup q = if q = p then none else es.lookup q := by
  induction es with
  | nil => simp [eraseEntry]
  | cons e es ih =>
    obtain ⟨r, k⟩ := e
    by_cases h : r = p
    · subst h
      have : eraseEntry r ((r, k) :: es) = eraseEntry r es := by simp [eraseEntry]
      rw [this, ih, lookup_cons]
      split <;> rfl
    · have : eraseEntry p ((r, k) :: es) = (r, k) :: eraseEntry p es := by simp [eraseEntry, h]
      rw [this, lookup_cons, lookup_cons, ih]
      by_cases hq : q = r
      · subst hq
        simp [h]
      · simp [hq]

theorem mem_insertEntry {p : PlaceId} {n : Nat} {es : List (PlaceId × Nat)} {e : PlaceId × Nat}
    (h : e ∈ insertEntry p n es) : e = (p, n) ∨ e ∈ es := by
  induction es with
  | nil => exact .inl (by simpa [insertEntry] using h)
  | cons d es ih =>
    simp only [insertEntry] at h
    split at h
    · exact (List.mem_cons.1 h).imp_right id
    · split at h
      · rcases List.mem_cons.1 h with h | h
        · exact .inl h
        · exact .inr (List.mem_cons_of_mem _ h)
      · rcases List.mem_cons.1 h with h | h
        · exact .inr (h ▸ List.mem_cons_self)
        · exact (ih h).imp_right (List.mem_cons_of_mem _)

/-! ## Counts -/

@[simp] theorem tokens_empty {p : PlaceId} : (∅ : Marking).tokens p = 0 := rfl

theorem tokens_set {m : Marking} {p q : PlaceId} {n : Nat} :
    (m.set p n).tokens q = if q = p then n else m.tokens q := by
  by_cases hn : n = 0 <;> by_cases hq : q = p <;>
    simp [set, tokens, hn, hq, lookup_insertEntry, lookup_eraseEntry]

theorem contains_set {m : Marking} {p q : PlaceId} {n : Nat} :
    (m.set p n).contains q = if q = p then decide (n ≠ 0) else m.contains q := by
  by_cases hn : n = 0 <;> by_cases hq : q = p <;>
    simp [set, contains, hn, hq, lookup_insertEntry, lookup_eraseEntry]

theorem tokens_store {m : Marking} {p q : PlaceId} {n : Nat} :
    (m.store p n).tokens q = if q = p then n else m.tokens q := by
  by_cases hq : q = p <;> simp [store, tokens, hq, lookup_insertEntry]

/-- Adding succeeds exactly when the new count is not too large. -/
theorem add_eq_ok_iff {m m' : Marking} {p : PlaceId} {n : Nat} :
    m.add p n = .ok m' ↔ m.tokens p + n ≤ maxCount ∧ m' = m.set p (m.tokens p + n) := by
  simp only [add]
  split
  · rename_i h
    simp [h, eq_comm]
  · rename_i h
    simp [h]

theorem tokens_add {m m' : Marking} {p q : PlaceId} {n : Nat} (h : m.add p n = .ok m') :
    m'.tokens q = if q = p then m.tokens p + n else m.tokens q := by
  obtain ⟨_, rfl⟩ := add_eq_ok_iff.1 h
  exact tokens_set

theorem tokens_remove {m : Marking} {p q : PlaceId} {n : Nat} :
    (m.remove p n).tokens q = if q = p then m.tokens p - n else m.tokens q :=
  tokens_set

theorem tokens_take {m : Marking} {p q : PlaceId} :
    (m.take p).2.tokens q = if q = p then 0 else m.tokens q := by
  by_cases hq : q = p <;> simp [take, tokens, hq, lookup_eraseEntry]

theorem tokens_take_of_ne {m : Marking} {p q : PlaceId} (hq : q ≠ p) :
    (m.take p).2.tokens q = m.tokens q :=
  tokens_take.trans (if_neg hq)

theorem tokens_take_le (m : Marking) (p q : PlaceId) : (m.take p).2.tokens q ≤ m.tokens q := by
  rw [tokens_take]
  split
  · exact Nat.zero_le _
  · exact Nat.le_refl _

/-! ## Sums and differences -/

theorem lookup_eq_none_of_notMem {p : PlaceId} {es : List (PlaceId × Nat)}
    (h : p ∉ es.map (·.1)) : es.lookup p = none := by
  rw [List.lookup_eq_none_iff]
  exact fun e he => bne_iff_ne.2 fun heq => h (List.mem_map.2 ⟨e, he, heq.symm⟩)

theorem tokens_removeAll {m : Marking} {q : PlaceId} {es : List (PlaceId × Nat)}
    (h : (es.map (·.1)).Nodup) :
    (m.removeAll es).tokens q = m.tokens q - (es.lookup q).getD 0 := by
  induction es generalizing m with
  | nil => simp [removeAll]
  | cons e es ih =>
    obtain ⟨r, k⟩ := e
    obtain ⟨hr, hes⟩ := List.nodup_cons.1 h
    rw [removeAll, ih hes, tokens_remove, lookup_cons]
    by_cases hq : q = r
    · subst hq
      simp [lookup_eq_none_of_notMem hr]
    · simp [hq]

theorem tokens_addAll {m m' : Marking} {q : PlaceId} {es : List (PlaceId × Nat)}
    (h : (es.map (·.1)).Nodup) (hm : m.addAll es = .ok m') :
    m'.tokens q = m.tokens q + (es.lookup q).getD 0 := by
  induction es generalizing m with
  | nil =>
    cases hm
    simp
  | cons e es ih =>
    obtain ⟨r, k⟩ := e
    obtain ⟨hr, hes⟩ := List.nodup_cons.1 h
    simp only [addAll] at hm
    split at hm
    · rename_i m₁ hadd
      rw [ih hes hm, tokens_add hadd, lookup_cons]
      by_cases hq : q = r
      · subst hq
        simp [lookup_eq_none_of_notMem hr]
      · simp [hq]
    · cases hm

theorem tokens_clearAll {m : Marking} {q : PlaceId} {ps : List PlaceId} :
    (m.clearAll ps).tokens q = if q ∈ ps then 0 else m.tokens q := by
  induction ps generalizing m with
  | nil => simp [clearAll]
  | cons p ps ih =>
    rw [clearAll, ih, tokens_set]
    by_cases hq : q = p <;> simp [hq]

/-! ## Canonical markings -/

theorem canonical_empty : Canonical ∅ := ⟨.nil, fun _ h => nomatch h⟩

/-- Entries that ascend are at different places. -/
theorem nodup_of_sorted {es : List (PlaceId × Nat)}
    (h : es.Pairwise fun a b => a.1.number < b.1.number) : (es.map (·.1)).Nodup := by
  refine List.pairwise_map.2 (h.imp fun {a b} hab heq => ?_)
  rw [heq] at hab
  omega

theorem Canonical.tokens_minus {a b : Marking} {q : PlaceId} (hb : b.Canonical) :
    (a.minus b).tokens q = a.tokens q - b.tokens q :=
  tokens_removeAll (nodup_of_sorted hb.sorted)

theorem Canonical.tokens_plus {a b c : Marking} {q : PlaceId} (hb : b.Canonical)
    (h : a.plus b = .ok c) : c.tokens q = a.tokens q + b.tokens q :=
  tokens_addAll (nodup_of_sorted hb.sorted) h

theorem sorted_insertEntry {p : PlaceId} {n : Nat} {es : List (PlaceId × Nat)}
    (h : es.Pairwise fun a b => a.1.number < b.1.number) :
    (insertEntry p n es).Pairwise fun a b => a.1.number < b.1.number := by
  induction es with
  | nil => simp [insertEntry]
  | cons e es ih =>
    obtain ⟨r, k⟩ := e
    obtain ⟨hr, hes⟩ := List.pairwise_cons.1 h
    simp only [insertEntry]
    split
    · rename_i hlt
      refine List.pairwise_cons.2 ⟨fun d hd => ?_, h⟩
      rcases List.mem_cons.1 hd with rfl | hd
      · exact hlt
      · exact Nat.lt_trans hlt (hr d hd)
    · split
      · rename_i heq
        exact List.pairwise_cons.2 ⟨fun d hd => heq ▸ hr d hd, hes⟩
      · rename_i hlt hne
        refine List.pairwise_cons.2 ⟨fun d hd => ?_, ih hes⟩
        rcases mem_insertEntry hd with rfl | hd
        · exact Nat.lt_of_le_of_ne (Nat.le_of_not_lt hlt) fun e => hne e.symm
        · exact hr d hd

theorem Canonical.eraseEntry {m : Marking} (h : m.Canonical) (p : PlaceId) :
    Canonical ⟨eraseEntry p m.entries⟩ :=
  ⟨h.sorted.filter _, fun e he => h.positive e (List.mem_filter.1 he).1⟩

theorem Canonical.set {m : Marking} (h : m.Canonical) (p : PlaceId) (n : Nat) :
    (m.set p n).Canonical := by
  simp only [Marking.set]
  split
  · exact h.eraseEntry p
  · rename_i hn
    refine ⟨sorted_insertEntry h.sorted, fun e he => ?_⟩
    rcases mem_insertEntry he with rfl | he
    · exact Nat.pos_of_ne_zero hn
    · exact h.positive e he

theorem Canonical.add {m m' : Marking} {p : PlaceId} {n : Nat} (h : m.Canonical)
    (hadd : m.add p n = .ok m') : m'.Canonical := by
  obtain ⟨_, rfl⟩ := add_eq_ok_iff.1 hadd
  exact h.set _ _

theorem Canonical.remove {m : Marking} (h : m.Canonical) (p : PlaceId) (n : Nat) :
    (m.remove p n).Canonical :=
  h.set _ _

theorem Canonical.removeAll {m : Marking} {es : List (PlaceId × Nat)} (h : m.Canonical) :
    (m.removeAll es).Canonical := by
  induction es generalizing m with
  | nil => exact h
  | cons e es ih => exact ih (h.remove e.1 e.2)

theorem Canonical.minus {a : Marking} (h : a.Canonical) (b : Marking) : (a.minus b).Canonical :=
  h.removeAll

theorem Canonical.addAll {m m' : Marking} {es : List (PlaceId × Nat)} (h : m.Canonical)
    (hm : m.addAll es = .ok m') : m'.Canonical := by
  induction es generalizing m with
  | nil =>
    cases hm
    exact h
  | cons e es ih =>
    simp only [Marking.addAll] at hm
    split at hm
    · rename_i m₁ hadd
      exact ih (h.add hadd) hm
    · cases hm

theorem Canonical.plus {a b c : Marking} (h : a.Canonical) (hc : a.plus b = .ok c) : c.Canonical :=
  h.addAll hc

theorem canonical_ofList {l : List (PlaceId × Nat)} {m : Marking} (h : ofList l = .ok m) :
    m.Canonical :=
  canonical_empty.addAll h

theorem Canonical.clearAll {m : Marking} {ps : List PlaceId} (h : m.Canonical) :
    (m.clearAll ps).Canonical := by
  induction ps generalizing m with
  | nil => exact h
  | cons p ps ih => exact ih (h.set p 0)

theorem Canonical.take {m : Marking} (h : m.Canonical) (p : PlaceId) : (m.take p).2.Canonical :=
  h.eraseEntry p

/-- Nothing is found in front of the first entry. -/
theorem lookup_eq_none_of_lt {p : PlaceId} {es : List (PlaceId × Nat)}
    (h : ∀ e ∈ es, p.number < e.1.number) : es.lookup p = none := by
  refine lookup_eq_none_of_notMem fun hmem => ?_
  obtain ⟨e, he, rfl⟩ := List.mem_map.1 hmem
  exact Nat.lt_irrefl _ (h e he)

/-- What is below the first entry is below all of them. -/
theorem forall_lt_cons {p q : PlaceId} {k : Nat} {es : List (PlaceId × Nat)}
    (h : p.number < q.number) (hq : ∀ e ∈ es, q.number < e.1.number) :
    ∀ e ∈ (q, k) :: es, p.number < e.1.number := by
  intro e he
  rcases List.mem_cons.1 he with rfl | he
  · exact h
  · exact Nat.lt_trans h (hq e he)

/-- Entry lists of canonical markings with the same counts are the same. -/
theorem entries_eq_of_lookup {es fs : List (PlaceId × Nat)}
    (he : es.Pairwise fun a b => a.1.number < b.1.number)
    (hf : fs.Pairwise fun a b => a.1.number < b.1.number)
    (h : ∀ p, es.lookup p = fs.lookup p) : es = fs := by
  induction es generalizing fs with
  | nil =>
    cases fs with
    | nil => rfl
    | cons f fs =>
      have := h f.1
      rw [lookup_cons, if_pos rfl] at this
      cases this
  | cons e es ih =>
    cases fs with
    | nil =>
      have := h e.1
      simp at this
    | cons f fs =>
      obtain ⟨p, n⟩ := e
      obtain ⟨q, k⟩ := f
      obtain ⟨hp, he'⟩ := List.pairwise_cons.1 he
      obtain ⟨hq, hf'⟩ := List.pairwise_cons.1 hf
      have hpq : p = q := by
        rcases Nat.lt_trichotomy p.number q.number with hlt | heq | hgt
        · have := h p
          rw [lookup_eq_none_of_lt (forall_lt_cons hlt hq)] at this
          simp at this
        · exact Identifier.index_inj.1 heq
        · have := h q
          rw [lookup_eq_none_of_lt (forall_lt_cons hgt hp)] at this
          simp at this
      subst hpq
      have hnk : n = k := by simpa [lookup_cons] using h p
      subst hnk
      refine congrArg _ (ih he' hf' fun r => ?_)
      by_cases hr : r = p
      · subst hr
        rw [lookup_eq_none_of_lt hp, lookup_eq_none_of_lt hq]
      · simpa [lookup_cons, hr] using h r

theorem Canonical.lookup_eq {m : Marking} (h : m.Canonical) (p : PlaceId) :
    m.entries.lookup p = if m.tokens p = 0 then none else some (m.tokens p) := by
  unfold tokens
  rcases hl : m.entries.lookup p with _ | n
  · rfl
  · obtain ⟨l, r, hlr, _⟩ := List.lookup_eq_some_iff.1 hl
    have := h.positive (p, n) (hlr ▸ List.mem_append_right l List.mem_cons_self)
    rw [Option.getD_some, if_neg (by omega)]

/-- Canonical markings are equal when they hold the same tokens. -/
theorem Canonical.ext {a b : Marking} (ha : a.Canonical) (hb : b.Canonical)
    (h : ∀ p, a.tokens p = b.tokens p) : a = b := by
  have : a.entries = b.entries :=
    entries_eq_of_lookup ha.sorted hb.sorted fun p => by rw [ha.lookup_eq, hb.lookup_eq, h p]
  cases a
  cases b
  simp_all

/-- A marking is covered by another one that has as many tokens on every place. -/
theorem Canonical.covered_iff {a b : Marking} (ha : a.Canonical) :
    a.Covered b ↔ ∀ p, a.tokens p ≤ b.tokens p := by
  refine ⟨fun h p => ?_, fun h e he => ?_⟩
  · have hl := ha.lookup_eq p
    split at hl
    · omega
    · obtain ⟨l, r, hlr, _⟩ := List.lookup_eq_some_iff.1 hl
      exact h _ (hlr ▸ List.mem_append_right l List.mem_cons_self)
  · have : a.entries.lookup e.1 = some e.2 := by
      obtain ⟨l, r, hlr⟩ := List.append_of_mem he
      rw [List.lookup_eq_some_iff]
      refine ⟨l, r, by simpa using hlr, fun d hd => bne_iff_ne.2 fun heq => ?_⟩
      have hlt := (List.pairwise_append.1 (hlr ▸ ha.sorted)).2.2 d hd e List.mem_cons_self
      rw [heq] at hlt
      omega
    have ht : a.tokens e.1 = e.2 := by rw [tokens, this, Option.getD_some]
    exact ht ▸ h e.1

end ProcessNet.Marking
