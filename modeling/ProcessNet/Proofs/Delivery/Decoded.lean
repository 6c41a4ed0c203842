/-
Markings that are read from texts. A text lists counts for places, and of several counts for one place the
last one is kept, zeros included. So a marking that was read is one that the operations build, which is told
from others by its counts, just if no last count is zero; and the verdict on a net that was read goes by
counts if this holds of both of its markings.
-/
import ProcessNet.Proofs.Delivery.Verdict
import ProcessNet.Proofs.Marking.Multiset
import ProcessNet.Proofs.Net.Editing

namespace ProcessNet

open DocumentReader

/-! ## Counts kept one after the other -/

namespace Marking

/-- The last count that a list has for `p`. -/
def lastCount? (l : List (PlaceId × Nat)) (p : PlaceId) : Option Nat := l.reverse.lookup p

/-- The marking that keeps the last count for each place, zero included. -/
def kept (l : List (PlaceId × Nat)) : Marking := l.foldl (fun m e => m.store e.1 e.2) ∅

variable {l : List (PlaceId × Nat)} {m : Marking} {p : PlaceId} {n : Nat}

theorem kept_append_singleton {e : PlaceId × Nat} : kept (l ++ [e]) = (kept l).store e.1 e.2 := by
  rw [kept, List.foldl_append]
  rfl

theorem lookup_kept : (kept l).entries.lookup p = lastCount? l p := by
  induction l using List.reverseRecOn with
  | nil => rfl
  | append_singleton l e ih =>
    rw [kept_append_singleton, store, lookup_insertEntry, ih, lastCount?, lastCount?, List.reverse_append,
      List.reverse_singleton, List.singleton_append, lookup_cons]

theorem sorted_kept (l : List (PlaceId × Nat)) :
    (kept l).entries.Pairwise fun a b => a.1.number < b.1.number := by
  induction l using List.reverseRecOn with
  | nil => exact .nil
  | append_singleton l e ih =>
    rw [kept_append_singleton]
    exact sorted_insertEntry ih

theorem mem_kept : (p, n) ∈ (kept l).entries ↔ lastCount? l p = some n := by
  rw [← lookup_kept]
  constructor
  · intro hmem
    obtain ⟨before, after, hsplit⟩ := List.append_of_mem hmem
    have hfront : ∀ d ∈ before, p ≠ d.1 := by
      rintro d hd rfl
      have hlt := (List.pairwise_append.1 (hsplit ▸ sorted_kept l)).2.2 d hd _ List.mem_cons_self
      exact Nat.lt_irrefl _ hlt
    exact List.lookup_eq_some_iff.2 ⟨before, after, hsplit, fun d hd => bne_iff_ne.2 (hfront d hd)⟩
  · intro hlookup
    obtain ⟨before, after, hsplit, -⟩ := List.lookup_eq_some_iff.1 hlookup
    exact hsplit ▸ List.mem_append_right _ List.mem_cons_self

/-- A marking keeps the listed counts, and they can be stored. -/
structure Keeps (m : Marking) (l : List (PlaceId × Nat)) : Prop where
  eq : m = kept l
  fits : ∀ e ∈ l, e.2 ≤ maxCount

theorem Keeps.storable (h : Keeps m l) : m.Storable := by
  obtain ⟨rfl, h⟩ := h
  intro p
  rw [tokens, lookup_kept]
  cases hlast : lastCount? l p with
  | none => exact Nat.zero_le _
  | some n =>
    obtain ⟨before, after, hsplit, -⟩ := List.lookup_eq_some_iff.1 hlast
    exact h (p, n) (List.mem_reverse.1 (hsplit ▸ List.mem_append_right _ List.mem_cons_self))

/-- What is kept can be built just if no zero is kept. -/
theorem Keeps.built_iff (h : Keeps m l) : Built m ↔ ∀ p, lastCount? l p ≠ some 0 := by
  have hstorable := h.storable
  obtain ⟨rfl, -⟩ := h
  refine ⟨fun hbuilt p hlast => ?_, fun hpositive => ?_⟩
  · exact Nat.lt_irrefl _ (hbuilt.canonical.positive _ (mem_kept.2 hlast))
  · refine Canonical.built ⟨sorted_kept l, fun e he => Nat.pos_of_ne_zero fun hzero => ?_⟩ hstorable
    exact hpositive e.1 (mem_kept.1 (hzero ▸ he))

/-- The counts of a marking tell it from all that are built just if it is built itself. -/
theorem Keeps.told_iff (h : Keeps m l) :
    (∀ k, Built k → (m = k ↔ ∀ p, m.tokens p = k.tokens p)) ↔ Built m := by
  refine ⟨fun htold => ?_, fun hbuilt k hk => ⟨fun h p => by rw [h], hbuilt.canonical.ext hk.canonical⟩⟩
  have hcount : ∀ p, countIn m.entries p = m.tokens p := fun p =>
    countIn_of_nodup (nodup_of_sorted (h.eq ▸ sorted_kept l))
  -- the marking that is built of the same counts
  obtain ⟨k, hk, -, htokens⟩ := (gives_ofList m.entries).exists_ok fun p =>
    (hcount p).symm ▸ h.storable p
  have hbuilt : Built k := .ofList hk
  have hsame : m = k := (htold k hbuilt).2 fun p => ((htokens p).trans (hcount p)).symm
  exact hsame ▸ hbuilt

end Marking

/-! ## Documents -/

section Documents

variable {τ : Type} [DocumentReader τ] {v : τ}

/-- The counts that the document of a marking lists, in its order. -/
def Marking.listed? (v : τ) : Option (List (PlaceId × Nat)) := do
  let l ← toNumbered? Identifier.bits v
  l.mapM fun (p, v) => (toUnsigned? countBits v).map (PlaceId.mk p, ·)

theorem Marking.decode?_eq : Marking.decode? v = (Marking.listed? v).map Marking.kept := by
  unfold Marking.decode? Marking.listed?
  cases toNumbered? Identifier.bits v with
  | none => rfl
  | some l =>
    dsimp only [Option.bind_eq_bind, Option.bind_some]
    cases l.mapM fun (p, v) => (toUnsigned? countBits v).map (PlaceId.mk p, ·) <;> rfl

/-- The counts that the document of an accepting net lists in one of its fields. -/
def AcceptingNet.listed? (field : String) (v : τ) : Option (List (PlaceId × Nat)) := do
  let r ← toFields? "AcceptingNet" AcceptingNet.fields v
  r.required? field Marking.listed?

theorem exists_of_mem_mapM {α β : Type} {f : α → Option β} {l : List α} {l' : List β}
    (h : l.mapM f = some l') {b : β} (hb : b ∈ l') : ∃ a ∈ l, f a = some b := by
  induction l generalizing l' with
  | nil =>
    cases h
    cases hb
  | cons a l ih =>
    rw [List.mapM_cons] at h
    obtain ⟨c, hc, h⟩ := Option.bind_eq_some_iff.1 h
    obtain ⟨cs, hcs, h⟩ := Option.bind_eq_some_iff.1 h
    cases h
    rcases List.mem_cons.1 hb with rfl | hb
    · exact ⟨a, List.mem_cons_self, hc⟩
    · obtain ⟨a', ha', hf⟩ := ih hcs hb
      exact ⟨a', List.mem_cons_of_mem _ ha', hf⟩

/-- A marking keeps what its document lists, if numbers of the format are as large as asked for at most. -/
theorem Marking.exists_keeps {m : Marking}
    (hfits : ∀ bits (v : τ) n, toUnsigned? bits v = some n → fits bits n)
    (h : Marking.decode? v = some m) : ∃ l, Marking.listed? v = some l ∧ Keeps m l := by
  rw [Marking.decode?_eq, Option.map_eq_some_iff] at h
  obtain ⟨l, hl, rfl⟩ := h
  refine ⟨l, hl, rfl, fun e he => ?_⟩
  unfold Marking.listed? at hl
  obtain ⟨entries, -, hl⟩ := Option.bind_eq_some_iff.1 hl
  obtain ⟨⟨p, w⟩, -, hw⟩ := exists_of_mem_mapM hl he
  obtain ⟨n, hn, rfl⟩ := Option.map_eq_some_iff.1 hw
  exact Nat.le_sub_one_of_lt (of_decide_eq_true (hfits _ _ _ hn))

theorem AcceptingNet.exists_keeps {a : AcceptingNet}
    (hfits : ∀ bits (v : τ) n, toUnsigned? bits v = some n → fits bits n)
    (h : AcceptingNet.decode? v = some a) :
    ∃ initial final, AcceptingNet.listed? "initial_marking" v = some initial ∧
      AcceptingNet.listed? "final_marking" v = some final ∧
      Marking.Keeps a.initial initial ∧ Marking.Keeps a.final final := by
  simp only [AcceptingNet.decode?, Option.bind_eq_bind, Option.bind_eq_some_iff, Fields.required?] at h
  obtain ⟨r, hr, n, -, m, ⟨vm, hvm, hm⟩, k, ⟨vk, hvk, hk⟩, h⟩ := h
  cases h
  obtain ⟨initial, hinitial, hi⟩ := Marking.exists_keeps hfits hm
  obtain ⟨final, hfinal, hf⟩ := Marking.exists_keeps hfits hk
  refine ⟨initial, final, ?_, ?_, hi, hf⟩
  · simp [AcceptingNet.listed?, hr, Fields.required?, hvm, hinitial]
  · simp [AcceptingNet.listed?, hr, Fields.required?, hvk, hfinal]

end Documents

theorem Json.fits_of_toUnsigned? (bits : Nat) (v : Json) (n : Nat) (h : toUnsigned? bits v = some n) :
    fits bits n :=
  (Option.filter_eq_some_iff.1 h).2

theorem Ron.fits_of_toUnsigned? (bits : Nat) (v : Ron.Part) (n : Nat) (h : toUnsigned? bits v = some n) :
    fits bits n := by
  change Ron.Part.toUnsigned? bits v = some n at h
  unfold Ron.Part.toUnsigned? at h
  split at h
  · split at h
    · rename_i hcond
      cases h
      exact hcond.1
    · cases h
  · cases h

/-! ## Texts -/

namespace AcceptingNet

open Marking

/-- A text that is taken as `a`, in one of the formats, lists these counts for the two markings. -/
inductive Lists (s : String) (a : AcceptingNet) (initial final : List (PlaceId × Nat)) : Prop
  | json {v : Json} (h : ofJson s = .ok a) (hv : Json.parse? s = some v)
    (hinitial : listed? "initial_marking" v = some initial)
    (hfinal : listed? "final_marking" v = some final) : Lists s a initial final
  | ron {v : Ron.Part} (h : ofRon s = .ok a) (hv : (Ron.parse? s).map Ron.Part.whole = some v)
    (hinitial : listed? "initial_marking" v = some initial)
    (hfinal : listed? "final_marking" v = some final) : Lists s a initial final

variable {a : AcceptingNet} {s : String}

theorem exists_document_of_ofJson (h : ofJson s = .ok a) :
    ∃ v, Json.parse? s = some v ∧ decode? v = some a := by
  obtain ⟨b, hread, hchecked⟩ := except_bind_eq_ok.1 h
  obtain ⟨rfl, -⟩ := checked_eq_ok hchecked
  unfold readJson at hread
  split at hread
  · rename_i hdecode
    cases hread
    exact Option.bind_eq_some_iff.1 hdecode
  · cases hread

theorem exists_document_of_ofRon (h : ofRon s = .ok a) :
    ∃ v, (Ron.parse? s).map Ron.Part.whole = some v ∧ decode? v = some a := by
  obtain ⟨b, hread, hchecked⟩ := except_bind_eq_ok.1 h
  obtain ⟨rfl, -⟩ := checked_eq_ok hchecked
  unfold readRon at hread
  split at hread
  · rename_i hdecode
    cases hread
    exact Option.bind_eq_some_iff.1 hdecode
  · cases hread

/-- A text that `ofJson` or `ofRon` takes lists counts for the two markings, which keep them. -/
theorem exists_lists (h : ofJson s = .ok a ∨ ofRon s = .ok a) :
    ∃ initial final, Lists s a initial final ∧ Keeps a.initial initial ∧ Keeps a.final final := by
  rcases h with h | h
  · obtain ⟨v, hv, hdecode⟩ := exists_document_of_ofJson h
    obtain ⟨initial, final, hinitial, hfinal, hkeeps⟩ := exists_keeps Json.fits_of_toUnsigned? hdecode
    exact ⟨initial, final, .json h hv hinitial hfinal, hkeeps⟩
  · obtain ⟨v, hv, hdecode⟩ := exists_document_of_ofRon h
    obtain ⟨initial, final, hinitial, hfinal, hkeeps⟩ := exists_keeps Ron.fits_of_toUnsigned? hdecode
    exact ⟨initial, final, .ron h hv hinitial hfinal, hkeeps⟩

/-- Between markings that are built, `isEasySound` tells whether some reachable marking has the counts of
the final one, if the search ends. -/
theorem isEasySound_iff_tokens (hi : Built a.initial) (hf : Built a.final) (he : a.Explorable) :
    ∃ b : Bool, a.net.isEasySound a.initial a.final none = .ok b ∧
      (b ↔ ∃ k, a.net.Reaches a.initial k ∧ ∀ p, k.tokens p = a.final.tokens p) := by
  obtain ⟨g, hg⟩ := he
  refine ⟨g.contains a.final, ?_, ?_⟩
  · rw [Net.isEasySound, hg]
    rfl
  rw [StateGraph.contains_iff, (StateGraph.exact_of_explore hi.canonical hg).has_iff_reaches]
  refine ⟨fun hreaches => ⟨_, hreaches, fun _ => rfl⟩, ?_⟩
  rintro ⟨k, hk, htokens⟩
  exact (Net.canonical_of_reaches hi.canonical hk).ext hf.canonical htokens ▸ hk

/-- What `ofJson` or `ofRon` decodes counts tokens just as far as the text lists no zero. A marking that
was read stores a zero for the places whose last listed count is zero, and no other; it is told by its
counts from all markings that the operations build just if there is no such place. If that holds of both
markings, everything that is reached is told by its counts, and a search that ends tells whether the
final counts are reached. -/
theorem decoded_counts (h : ofJson s = .ok a ∨ ofRon s = .ok a) :
    ∃ initial final, Lists s a initial final ∧
      (∀ e ∈ [(a.initial, initial), (a.final, final)],
        (∀ p, (p, 0) ∈ e.1.entries ↔ lastCount? e.2 p = some 0) ∧
        ((∀ k, Built k → (e.1 = k ↔ ∀ p, e.1.tokens p = k.tokens p)) ↔ ∀ p, lastCount? e.2 p ≠ some 0)) ∧
      ((∀ p, lastCount? initial p ≠ some 0) → (∀ p, lastCount? final p ≠ some 0) →
        (∀ k, a.net.Reaches a.initial k → Built k) ∧
        (a.Explorable → ∃ b : Bool, a.net.isEasySound a.initial a.final none = .ok b ∧
          (b ↔ ∃ k, a.net.Reaches a.initial k ∧ ∀ p, k.tokens p = a.final.tokens p))) := by
  obtain ⟨initial, final, hlists, hi, hf⟩ := exists_lists h
  have hmarking : ∀ m l, Keeps m l → (∀ p, (p, 0) ∈ m.entries ↔ lastCount? l p = some 0) ∧
      ((∀ k, Built k → (m = k ↔ ∀ p, m.tokens p = k.tokens p)) ↔ ∀ p, lastCount? l p ≠ some 0) :=
    fun m l hkeeps => ⟨fun p => hkeeps.eq ▸ mem_kept, hkeeps.told_iff.trans hkeeps.built_iff⟩
  refine ⟨initial, final, hlists, fun e he => ?_, fun hinitial hfinal => ?_⟩
  · rcases List.mem_pair.1 he with rfl | rfl
    · exact hmarking _ _ hi
    · exact hmarking _ _ hf
  · have hbuilt : Built a.initial := hi.built_iff.2 hinitial
    exact ⟨fun k hk => (Net.canonical_of_reaches hbuilt.canonical hk).built
      (Net.storable_of_reaches hbuilt.storable hk),
      isEasySound_iff_tokens hbuilt (hf.built_iff.2 hfinal)⟩

/-- One place with an empty row, and the given markings. -/
def singlePlace (initial final : Marking) : AcceptingNet := { onePlace ⟨[[]]⟩ with initial, final }

/-- The place is listed with no token first and with two then, and with two tokens in the end. -/
def countedText : String :=
  "[[\"\",[[\"p\",\"Flow\",\"\"]],[],[[],[[]],[]],\x7b\"p\":0\x7d,\x7b\x7d],\x7b\"0\":0,\"0\":2\x7d,\x7b\"0\":2\x7d]"

/-- The place is listed with no token in the end. -/
def zeroText : String :=
  "[[\"\",[[\"p\",\"Flow\",\"\"]],[],[[],[[]],[]],\x7b\"p\":0\x7d,\x7b\x7d],\x7b\x7d,\x7b\"0\":0\x7d]"

theorem ofJson_countedText :
    ofJson countedText = .ok (singlePlace ⟨[(⟨0⟩, 2)]⟩ ⟨[(⟨0⟩, 2)]⟩) := by decide +kernel

theorem ofJson_zeroText : ofJson zeroText = .ok (singlePlace ∅ ⟨[(⟨0⟩, 0)]⟩) := by decide +kernel

/-- The first count is overwritten, so that the two markings are told by their counts. -/
theorem countedText_counts : ofJson countedText = .ok (singlePlace ⟨[(⟨0⟩, 2)]⟩ ⟨[(⟨0⟩, 2)]⟩) ∧
    ∃ initial final, Lists countedText (singlePlace ⟨[(⟨0⟩, 2)]⟩ ⟨[(⟨0⟩, 2)]⟩) initial final ∧
      ∀ p, lastCount? initial p ≠ some 0 := by
  obtain ⟨initial, final, hlists, hmarkings, -⟩ := decoded_counts (.inl ofJson_countedText)
  refine ⟨ofJson_countedText, initial, final, hlists, fun p hlast => ?_⟩
  have hzero := ((hmarkings _ List.mem_cons_self).1 p).2 hlast
  simp [singlePlace] at hzero

/-- A net is taken from a text that lists a zero. The markings have the same counts everywhere, no transition
is there to change them, and the final marking is not found. -/
theorem zeroText_misleads : ∃ a, ofJson zeroText = .ok a ∧ (⟨0⟩, 0) ∈ a.final.entries ∧
    (∀ p, a.initial.tokens p = a.final.tokens p) ∧ a.initial ≠ a.final ∧
    a.net.isEasySound a.initial a.final none = .ok false := by
  refine ⟨_, ofJson_zeroText, List.mem_cons_self, fun p => ?_, by decide, by decide +kernel⟩
  simp only [singlePlace, tokens, lookup_cons]
  split <;> rfl

end AcceptingNet

end ProcessNet
