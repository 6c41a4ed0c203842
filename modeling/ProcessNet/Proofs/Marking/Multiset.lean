/-
Markings as multisets of places. An operation that may overflow is described by the counts it is after: it
gives the canonical marking with these counts, or fails because one of them cannot be stored. Two operations
after the same counts are then one, which gives the laws of sums; differences and the order are read off the
counts of canonical markings.
-/
import Mathlib.Algebra.GroupWithZero.Nat
import Mathlib.Data.List.Perm.Basic
import ProcessNet.Proofs.Marking.Storable
import ProcessNet.Proofs.Marking.Total

namespace ProcessNet.Marking

/-! ## What operations are after, and what they build -/

/-- The operation gives the marking with counts `f`, or fails as one of these cannot be stored. -/
inductive Gives (f : PlaceId → Nat) : Except Fault Marking → Prop
  | ok {m : Marking} (hcanonical : m.Canonical) (hstorable : m.Storable)
    (htokens : ∀ p, m.tokens p = f p) : Gives f (.ok m)
  | overflow {p : PlaceId} (hover : maxCount < f p) : Gives f (.error .countOverflow)

/-- The markings that come from the empty one by the operations, as far as no count overflows. -/
inductive Built : Marking → Prop
  | new : Built ∅
  | set {m : Marking} {p : PlaceId} {n : Nat} (h : Built m) (hn : n ≤ maxCount) : Built (m.set p n)
  | add {m m' : Marking} {p : PlaceId} {n : Nat} (h : Built m) (hadd : m.add p n = .ok m') : Built m'
  | remove {m : Marking} {p : PlaceId} {n : Nat} (h : Built m) : Built (m.remove p n)
  | take {m : Marking} {p : PlaceId} (h : Built m) : Built (m.take p).2
  | ofList {m : Marking} {l : List (PlaceId × Nat)} (hl : ofList l = .ok m) : Built m
  | plus {a b s : Marking} (ha : Built a) (hb : Built b) (hsum : a.plus b = .ok s) : Built s
  | minus {a b : Marking} (ha : Built a) (hb : Built b) : Built (a.minus b)

variable {a b c m m' s : Marking} {p : PlaceId} {f g : PlaceId → Nat} {r r' : Except Fault Marking}

theorem Gives.congr (h : Gives f r) (hfg : ∀ p, f p = g p) : Gives g r :=
  funext hfg ▸ h

/-- Operations after the same counts have the same outcome. -/
theorem Gives.eq (h : Gives f r) (h' : Gives f r') : r = r' := by
  cases h with
  | ok hm hs ht =>
    cases h' with
    | ok hm' hs' ht' => exact congrArg _ (hm.ext hm' fun p => (ht p).trans (ht' p).symm)
    | overflow hover => exact absurd (ht _ ▸ hs _) (Nat.not_le_of_lt hover)
  | overflow hover =>
    cases h' with
    | ok hm' hs' ht' => exact absurd (ht' _ ▸ hs' _) (Nat.not_le_of_lt hover)
    | overflow _ => rfl

theorem Gives.eq_ok_iff (h : Gives f r) (hm : m.Canonical) :
    r = .ok m ↔ (∀ p, f p ≤ maxCount) ∧ ∀ p, m.tokens p = f p := by
  refine ⟨fun heq => ?_, fun hfits => h.eq (.ok hm (fun p => hfits.2 p ▸ hfits.1 p) hfits.2)⟩
  subst heq
  cases h with
  | ok _ hs ht => exact ⟨fun p => ht p ▸ hs p, ht⟩

theorem Gives.exists_ok (h : Gives f r) (hfits : ∀ p, f p ≤ maxCount) :
    ∃ m, r = .ok m ∧ m.Canonical ∧ ∀ p, m.tokens p = f p := by
  cases h with
  | ok hm _ ht => exact ⟨_, rfl, hm, ht⟩
  | overflow hover => exact absurd (hfits _) (Nat.not_le_of_lt hover)

/-- A further operation that only adds tokens overflows where the first one did. -/
theorem Gives.bind {k : Marking → Except Fault Marking} (h : Gives f r)
    (hk : ∀ m, m.Canonical → m.Storable → (∀ p, m.tokens p = f p) → Gives (fun p => f p + g p) (k m)) :
    Gives (fun p => f p + g p) (r >>= k) := by
  cases h with
  | ok hm hs ht => exact hk _ hm hs ht
  | overflow hover => exact .overflow (Nat.lt_of_lt_of_le hover (Nat.le_add_right _ _))

/-! ## Sums -/

/-- What a list of counts has for `p` altogether. -/
def countIn (l : List (PlaceId × Nat)) (p : PlaceId) : Nat :=
  (l.map fun e => if e.1 = p then e.2 else 0).sum

theorem countIn_cons {e : PlaceId × Nat} {l : List (PlaceId × Nat)} :
    countIn (e :: l) p = (if e.1 = p then e.2 else 0) + countIn l p :=
  List.sum_cons

theorem countIn_perm {l l' : List (PlaceId × Nat)} (h : l.Perm l') : countIn l p = countIn l' p :=
  (h.map _).sum_eq

theorem countIn_of_nodup {l : List (PlaceId × Nat)} (h : (l.map (·.1)).Nodup) :
    countIn l p = (l.lookup p).getD 0 := by
  induction l with
  | nil => rfl
  | cons e l ih =>
    obtain ⟨q, n⟩ := e
    obtain ⟨hq, hl⟩ := List.nodup_cons.1 h
    rw [countIn_cons, ih hl, lookup_cons]
    by_cases hp : p = q
    · subst hp
      rw [if_pos rfl, if_pos rfl, lookup_eq_none_of_notMem hq, Option.getD_none, Option.getD_some,
        Nat.add_zero]
    · rw [if_neg (Ne.symm hp), if_neg hp, Nat.zero_add]

theorem Canonical.countIn_entries (h : m.Canonical) : countIn m.entries p = m.tokens p :=
  countIn_of_nodup (nodup_of_sorted h.sorted)

theorem gives_add {n : Nat} (hm : m.Canonical) (hs : m.Storable) :
    Gives (fun q => m.tokens q + if p = q then n else 0) (m.add p n) := by
  cases hadd : m.add p n with
  | ok m' =>
    refine .ok (hm.add hadd) (hs.add hadd) fun q => ?_
    rw [tokens_add hadd]
    by_cases hq : q = p
    · rw [if_pos hq, if_pos hq.symm, hq]
    · rw [if_neg hq, if_neg (Ne.symm hq), Nat.add_zero]
  | error e =>
    obtain ⟨rfl, hover⟩ := add_eq_error hadd
    exact .overflow (p := p) (by rwa [if_pos rfl])

theorem gives_addAll {l : List (PlaceId × Nat)} (hm : m.Canonical) (hs : m.Storable) :
    Gives (fun q => m.tokens q + countIn l q) (m.addAll l) := by
  induction l generalizing m with
  | nil => exact .ok hm hs fun _ => rfl
  | cons e l ih =>
    have hbind : m.addAll (e :: l) = m.add e.1 e.2 >>= (·.addAll l) := by
      rw [addAll]
      cases m.add e.1 e.2 <;> rfl
    have hgives : Gives (fun q => m.tokens q + (if e.1 = q then e.2 else 0) + countIn l q)
        (m.add e.1 e.2 >>= (·.addAll l)) :=
      (gives_add hm hs).bind fun m' hm' hs' ht => (ih hm' hs').congr fun q => by rw [ht]
    rw [hbind]
    exact hgives.congr fun q => by rw [countIn_cons, Nat.add_assoc]

theorem gives_ofList (l : List (PlaceId × Nat)) : Gives (countIn l) (ofList l) :=
  (gives_addAll canonical_empty storable_empty).congr fun _ => Nat.zero_add _

theorem gives_plus (ha : a.Canonical) (hs : a.Storable) (hb : b.Canonical) :
    Gives (fun p => a.tokens p + b.tokens p) (a.plus b) :=
  (gives_addAll ha hs).congr fun _ => by rw [hb.countIn_entries]

/-- The order of the counts that `ofList` is given does not matter. -/
theorem ofList_perm {l l' : List (PlaceId × Nat)} (h : l.Perm l') : ofList l = ofList l' :=
  (gives_ofList l).eq ((gives_ofList l').congr fun _ => (countIn_perm h).symm)

/-! ## Markings that the operations build -/

theorem Storable.set {n : Nat} (h : m.Storable) (hn : n ≤ maxCount) : (m.set p n).Storable := by
  intro q
  rw [tokens_set]
  split
  · exact hn
  · exact h q

theorem Built.canonical (h : Built m) : m.Canonical := by
  induction h with
  | new => exact canonical_empty
  | set _ _ ih => exact ih.set _ _
  | add _ hadd ih => exact ih.add hadd
  | remove _ ih => exact ih.remove _ _
  | take _ ih => exact ih.take _
  | ofList hl => exact canonical_ofList hl
  | plus _ _ hsum ih _ => exact ih.plus hsum
  | minus _ _ ih _ => exact ih.minus _

theorem Built.storable (h : Built m) : m.Storable := by
  induction h with
  | new => exact storable_empty
  | set _ hn ih => exact ih.set hn
  | add _ hadd ih => exact ih.add hadd
  | @remove m p n _ ih => exact ih.set (Nat.le_trans (Nat.sub_le _ _) (ih p))
  | take _ ih =>
    refine ih.mono fun q => ?_
    rw [tokens_take]
    split
    · exact Nat.zero_le _
    · exact Nat.le_refl _
  | ofList hl => exact storable_empty.addAll hl
  | plus _ _ hsum ih _ => exact ih.addAll hsum
  | minus _ _ ih _ => exact ih.mono fun q => tokens_removeAll_le q

/-- Every canonical marking with counts that can be stored is built, from the list of its entries. -/
theorem Canonical.built (hm : m.Canonical) (hs : m.Storable) : Built m :=
  .ofList ((gives_ofList m.entries).eq
    (.ok hm hs fun _ => hm.countIn_entries.symm))

theorem built_iff : Built m ↔ m.Canonical ∧ m.Storable :=
  ⟨fun h => ⟨h.canonical, h.storable⟩, fun h => h.1.built h.2⟩

/-! ## Differences and the order -/

/-- The comparison finds `a` equal to or less than `b`. -/
def AtMost (a b : Marking) : Prop := a.compare? b = some .eq ∨ a.compare? b = some .lt

theorem atMost_iff_covered : a.AtMost b ↔ a.Covered b := by
  unfold AtMost compare?
  by_cases hab : a.Covered b <;> by_cases hba : b.Covered a <;> simp [hab, hba]

theorem compare?_swap : b.compare? a = (a.compare? b).map Ordering.swap := by
  unfold compare?
  by_cases hab : a.Covered b <;> by_cases hba : b.Covered a <;> simp [hab, hba]

theorem compare?_eq_iff : a.compare? b = some .eq ↔ a.Covered b ∧ b.Covered a := by
  unfold compare?
  by_cases hab : a.Covered b <;> by_cases hba : b.Covered a <;> simp [hab, hba]

theorem Canonical.atMost_iff (ha : a.Canonical) : a.AtMost b ↔ ∀ p, a.tokens p ≤ b.tokens p :=
  atMost_iff_covered.trans ha.covered_iff

theorem Canonical.compare?_eq_iff (ha : a.Canonical) (hb : b.Canonical) :
    a.compare? b = some .eq ↔ a = b := by
  rw [Marking.compare?_eq_iff, ha.covered_iff, hb.covered_iff]
  refine ⟨fun h => ha.ext hb fun p => Nat.le_antisymm (h.1 p) (h.2 p), ?_⟩
  rintro rfl
  exact ⟨fun _ => Nat.le_refl _, fun _ => Nat.le_refl _⟩

theorem Canonical.compare?_lt_iff (ha : a.Canonical) (hb : b.Canonical) :
    a.compare? b = some .lt ↔ a.AtMost b ∧ a ≠ b := by
  rw [Ne, ← ha.compare?_eq_iff hb, AtMost]
  refine ⟨fun h => ⟨.inr h, fun heq => ?_⟩, fun h => h.1.resolve_left h.2⟩
  cases h.symm.trans heq

/-- What is taken away and put back leaves the larger count. -/
theorem gives_minus_plus (ha : Built a) (hb : Built b) :
    Gives (fun p => max (a.tokens p) (b.tokens p)) ((a.minus b).plus b) :=
  (gives_plus (ha.minus hb).canonical (ha.minus hb).storable hb.canonical).congr fun p => by
    rw [hb.canonical.tokens_minus]
    omega

/-- A marking is at most another one when that one is the marking and what it lacks. -/
theorem Built.atMost_iff_plus_minus (ha : Built a) (hb : Built b) :
    a.AtMost b ↔ a.plus (b.minus a) = .ok b := by
  have hgives := gives_plus ha.canonical ha.storable (hb.minus ha).canonical
  have hsum : ∀ p, a.tokens p + (b.minus a).tokens p = max (a.tokens p) (b.tokens p) := fun p => by
    rw [ha.canonical.tokens_minus]
    omega
  rw [ha.canonical.atMost_iff, hgives.eq_ok_iff hb.canonical]
  simp only [hsum]
  refine ⟨fun h => ⟨fun p => ?_, fun p => (Nat.max_eq_right (h p)).symm⟩, fun h p => ?_⟩
  · exact Nat.max_le.2 ⟨ha.storable p, hb.storable p⟩
  · exact h.2 p ▸ Nat.le_max_left _ _

/-! ## The laws -/

theorem plus_comm (ha : Built a) (hb : Built b) : a.plus b = b.plus a :=
  (gives_plus ha.canonical ha.storable hb.canonical).eq
    ((gives_plus hb.canonical hb.storable ha.canonical).congr fun _ => Nat.add_comm _ _)

/-- Both sides fail as soon as the three counts of some place are too many together. -/
theorem plus_assoc (ha : Built a) (hb : Built b) (hc : Built c) :
    (a.plus b >>= (·.plus c)) = b.plus c >>= a.plus := by
  have hleft : Gives (fun p => a.tokens p + b.tokens p + c.tokens p) (a.plus b >>= (·.plus c)) :=
    (gives_plus ha.canonical ha.storable hb.canonical).bind fun m hm hs ht =>
      (gives_plus hm hs hc.canonical).congr fun p => by rw [ht]
  have hright : Gives (fun p => b.tokens p + c.tokens p + a.tokens p) (b.plus c >>= a.plus) :=
    (gives_plus hb.canonical hb.storable hc.canonical).bind fun m hm hs ht =>
      (gives_plus ha.canonical ha.storable hm).congr fun p => by rw [ht, Nat.add_comm]
  exact hleft.eq (hright.congr fun p => by omega)

theorem minus_of_plus (ha : Built a) (hb : Built b) (h : a.plus b = .ok s) : s.minus b = a :=
  ((ha.canonical.plus h).minus b).ext ha.canonical fun p => by
    rw [hb.canonical.tokens_minus, hb.canonical.tokens_plus h, Nat.add_sub_cancel]

/-- Markings form an ordered multiset of places. No zero is stored, and the counts say all about a marking;
the order of listed counts does not matter; sums exist as far as their counts can be stored, and are
commutative, associative and undone by differences; a difference put back gives the larger counts; the
comparison is a partial order in which equality is equality, and in which the markings above `a` are the sums
with `a`. -/
theorem built_laws (ha : Built a) (hb : Built b) (hc : Built c) :
    (∀ e ∈ a.entries, e.2 ≠ 0) ∧
      (a = b ↔ ∀ p, a.tokens p = b.tokens p) ∧
      (∀ l l' : List (PlaceId × Nat), l.Perm l' → ofList l = ofList l') ∧
      ((∃ s, a.plus b = .ok s) ↔ ∀ p, a.tokens p + b.tokens p ≤ maxCount) ∧
      a.plus b = b.plus a ∧
      (a.plus b >>= (·.plus c)) = b.plus c >>= a.plus ∧
      (∀ s, a.plus b = .ok s → s.minus b = a) ∧
      (∃ s, (a.minus b).plus b = .ok s ∧ ∀ p, s.tokens p = max (a.tokens p) (b.tokens p)) ∧
      (a.AtMost a ∧ (a.AtMost b → b.AtMost a → a = b) ∧ (a.AtMost b → b.AtMost c → a.AtMost c)) ∧
      (a.compare? b = some .eq ↔ a = b) ∧ (a.compare? b = some .lt ↔ a.AtMost b ∧ a ≠ b) ∧
      b.compare? a = (a.compare? b).map Ordering.swap ∧
      (a.AtMost b ↔ a.plus (b.minus a) = .ok b) := by
  have hext : a = b ↔ ∀ p, a.tokens p = b.tokens p :=
    ⟨fun h p => by rw [h], ha.canonical.ext hb.canonical⟩
  have hsum : (∃ s, a.plus b = .ok s) ↔ ∀ p, a.tokens p + b.tokens p ≤ maxCount := by
    have hgives := gives_plus ha.canonical ha.storable hb.canonical
    constructor
    · rintro ⟨s, hs⟩
      exact ((hgives.eq_ok_iff (ha.canonical.plus hs)).1 hs).1
    · intro hfits
      obtain ⟨s, hs, -⟩ := hgives.exists_ok hfits
      exact ⟨s, hs⟩
  have hlarger : ∃ s, (a.minus b).plus b = .ok s ∧ ∀ p, s.tokens p = max (a.tokens p) (b.tokens p) := by
    obtain ⟨s, hs, -, ht⟩ := (gives_minus_plus ha hb).exists_ok fun p =>
      Nat.max_le.2 ⟨ha.storable p, hb.storable p⟩
    exact ⟨s, hs, ht⟩
  have hantisymm : a.AtMost b → b.AtMost a → a = b := fun hab hba =>
    hext.2 fun p => Nat.le_antisymm (ha.canonical.atMost_iff.1 hab p) (hb.canonical.atMost_iff.1 hba p)
  have htrans : a.AtMost b → b.AtMost c → a.AtMost c := fun hab hbc =>
    ha.canonical.atMost_iff.2 fun p =>
      Nat.le_trans (ha.canonical.atMost_iff.1 hab p) (hb.canonical.atMost_iff.1 hbc p)
  exact ⟨fun e he => Nat.ne_of_gt (ha.canonical.positive e he), hext, fun _ _ => ofList_perm, hsum,
    plus_comm ha hb, plus_assoc ha hb hc, fun _ => minus_of_plus ha hb, hlarger,
    ⟨ha.canonical.atMost_iff.2 fun _ => Nat.le_refl _, hantisymm, htrans⟩,
    ha.canonical.compare?_eq_iff hb.canonical, ha.canonical.compare?_lt_iff hb.canonical, compare?_swap,
    ha.atMost_iff_plus_minus hb⟩

/-- One and two tokens on the first two places. -/
def stock : Marking := ⟨[(⟨0⟩, 1), (⟨1⟩, 2)]⟩

/-- Two tokens and one on the second place and the third one. -/
def delivery : Marking := ⟨[(⟨1⟩, 2), (⟨2⟩, 1)]⟩

/-- The stock and the delivery are not comparable, and neither is lost in their sum. -/
theorem stock_laws : Built stock ∧ Built delivery ∧
    stock.compare? delivery = none ∧
    delivery.plus stock = .ok ⟨[(⟨0⟩, 1), (⟨1⟩, 4), (⟨2⟩, 1)]⟩ ∧
    ∀ s, stock.plus delivery = .ok s → s.minus delivery = stock := by
  have hstock : Built stock := .ofList (l := [(⟨1⟩, 2), (⟨0⟩, 1)]) rfl
  have hdelivery : Built delivery := .ofList (l := [(⟨1⟩, 1), (⟨2⟩, 1), (⟨1⟩, 1)]) rfl
  obtain ⟨_, _, _, _, hcomm, _, hminus, _⟩ := built_laws hstock hdelivery .new
  exact ⟨hstock, hdelivery, by decide, hcomm ▸ rfl, hminus⟩

end ProcessNet.Marking
