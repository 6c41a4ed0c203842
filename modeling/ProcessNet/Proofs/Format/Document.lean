/-
Documents that are read back as they were written. A format grants this for the parts of documents: its
laws say what its reader finds where one of its building blocks was written. Whatever is built of these
blocks is then read back part by part, in every format alike.
-/
import Mathlib.Data.List.Forall2
import ProcessNet.Format.Document

namespace ProcessNet

open DocumentReader DocumentWriter

/-- A text that can name a field or an alternative: letters and underscores, and none of the words that
a format keeps for itself. -/
def isWord (s : String) : Bool :=
  s.toList.all (fun c => c.isAlpha || c == '_')
    && s ∉ ["", "true", "false", "None", "Some", "inf", "NaN"]

/-- Names for the fields of a record, one at least. -/
def areFieldNames (l : List String) : Bool := !l.isEmpty && l.all isWord

/-- Fields that make a record, with values of which `Fit` holds. -/
def FitFields {ω : Type} (Fit : ω → Prop) (l : List (String × ω)) : Prop :=
  areFieldNames (l.map (·.1)) ∧ ∀ e ∈ l, Fit e.2

/-- Numbers that take at most so many bits can be written in every format. -/
def widestBits : Nat := 64

/-- Two entries have the same key, and their values belong together. -/
def SameKey {κ ω ρ : Type} (R : ω → ρ → Prop) (a : κ × ω) (b : κ × ρ) : Prop :=
  a.1 = b.1 ∧ R a.2 b.2

theorem lookup_of_sameKey {κ ω ρ : Type} [BEq κ] [LawfulBEq κ] {R : ω → ρ → Prop} {l : List (κ × ω)}
    {l' : List (κ × ρ)} (h : List.Forall₂ (SameKey R) l l') (hnodup : (l.map (·.1)).Nodup)
    {e : κ × ω} (he : e ∈ l) : ∃ r, l'.lookup e.1 = some r ∧ R e.2 r := by
  induction h with
  | nil => cases he
  | @cons a b l l' hab _ ih =>
    obtain ⟨k, r⟩ := b
    obtain ⟨rfl, hr⟩ := hab
    rw [List.map_cons, List.nodup_cons] at hnodup
    rcases List.mem_cons.1 he with rfl | he
    · exact ⟨r, by simp, hr⟩
    · have hne : e.1 ≠ a.1 := fun hk => hnodup.1 (hk ▸ List.mem_map_of_mem he)
      rw [List.lookup_cons, beq_false_of_ne hne]
      exact ih hnodup.2 he

/-- What makes a writer and a reader of document values the two sides of one format. -/
structure Format (ω ρ : Type) [DocumentWriter ω] [DocumentReader ρ] where
  /-- The format can write the value. -/
  Fit : ω → Prop
  /-- What was written as the one value is found as the other one. -/
  Reads : ω → ρ → Prop
  fit_text : ∀ s, Fit (ofText s)
  fit_nat : ∀ n, fits widestBits n → Fit (ofNat n)
  fit_absent : Fit absent
  fit_present : ∀ w, Fit w → Fit (present w)
  fit_list : ∀ l, (∀ w ∈ l, Fit w) → Fit (ofList l)
  fit_pair : ∀ a b, Fit a → Fit b → Fit (ofPair a b)
  fit_fields : ∀ l : List (String × ω), FitFields Fit l → Fit (ofFields l)
  fit_bare : ∀ s, isWord s → Fit (bare s)
  fit_holding : ∀ s w, isWord s → Fit w → Fit (holding s w)
  fit_holdingFields : ∀ s (l : List (String × ω)), isWord s → FitFields Fit l →
    Fit (holdingFields s l)
  fit_numbered : ∀ l : List (Nat × ω), (∀ e ∈ l, fits widestBits e.1 ∧ Fit e.2) →
    Fit (ofNumbered l)
  fit_named : ∀ l : List (String × ω), (∀ e ∈ l, Fit e.2) → Fit (ofNamed l)
  reads_text : ∀ s r, Reads (ofText s) r → toText? r = some s
  reads_nat : ∀ bits n r, Reads (ofNat n) r → fits bits n → toUnsigned? bits r = some n
  reads_absent : ∀ r, Reads absent r → toOption? r = some none
  reads_present : ∀ w r, Reads (present w) r → w ≠ absent →
    ∃ r', toOption? r = some (some r') ∧ Reads w r'
  text_ne_absent : ∀ s, ofText s ≠ (absent : ω)
  fields_ne_absent : ∀ l, ofFields l ≠ (absent : ω)
  reads_list : ∀ l r, Reads (ofList l) r → ∃ l', toList? r = some l' ∧ List.Forall₂ Reads l l'
  reads_pair : ∀ a b r, Reads (ofPair a b) r →
    ∃ a' b', toPair? r = some (a', b') ∧ Reads a a' ∧ Reads b b'
  reads_fields : ∀ name l r, Reads (ofFields l) r → (l.map (·.1)).Nodup →
    ∃ f, toFields? name (l.map (·.1)) r = some f ∧ List.Forall₂ (SameKey Reads) l f.values
  reads_bare : ∀ s r, Reads (bare s) r → toChoice? r = some (.bare s)
  reads_holding : ∀ s w r, Reads (holding s w) r → ∃ r', toChoice? r = some (.holding s r') ∧ Reads w r'
  reads_holdingFields : ∀ s l r, Reads (holdingFields s l) r →
    ∃ r', toChoice? r = some (.holding s r') ∧ Reads (ofFields l) r'
  reads_numbered : ∀ bits l r, Reads (ofNumbered l) r → (∀ e ∈ l, fits bits e.1) →
    ∃ l', toNumbered? bits r = some l' ∧ List.Forall₂ (SameKey Reads) l l'
  reads_named : ∀ l r, Reads (ofNamed l) r →
    ∃ l', toNamed? r = some l' ∧ List.Forall₂ (SameKey Reads) l l'

namespace Format

variable {ω ρ α : Type} [DocumentWriter ω] [DocumentReader ρ] {F : Format ω ρ} {w : ω}
  {decode : ρ → Option α} {x : α}

/-- The value can be written, and `decode` finds `x` where it was. -/
def Conveys (F : Format ω ρ) (w : ω) (decode : ρ → Option α) (x : α) : Prop :=
  F.Fit w ∧ ∀ r, F.Reads w r → decode r = some x

/-! ## Single values -/

theorem conveys_text (F : Format ω ρ) (s : String) : F.Conveys (ofText s) toText? s :=
  ⟨F.fit_text s, F.reads_text s⟩

theorem fits_widest {bits n : Nat} (hbits : bits ≤ widestBits) (h : fits bits n) :
    fits widestBits n :=
  decide_eq_true (Nat.lt_of_lt_of_le (of_decide_eq_true h) (Nat.pow_le_pow_right (by decide) hbits))

theorem conveys_nat (F : Format ω ρ) {bits n : Nat} (hbits : bits ≤ widestBits) (h : fits bits n) :
    F.Conveys (ofNat n) (toUnsigned? bits) n :=
  ⟨F.fit_nat n (fits_widest hbits h), fun r hr => F.reads_nat bits n r hr h⟩

/-- An alternative that its name tells from the others. -/
theorem conveys_bare (F : Format ω ρ) {name : α → String} {all : List α} (hword : isWord (name x))
    (hfind : all.find? (name · = name x) = some x) :
    F.Conveys (bare (name x)) (toOneOf? name all) x := by
  refine ⟨F.fit_bare _ hword, fun r hr => ?_⟩
  rw [toOneOf?, F.reads_bare _ r hr]
  exact hfind

theorem Conveys.map {β : Type} (h : F.Conveys w decode x) (f : α → β) :
    F.Conveys w (fun r => (decode r).map f) (f x) :=
  ⟨h.1, fun r hr => congrArg (Option.map f) (h.2 r hr)⟩

/-! ## Lists and tables -/

theorem mapM_of_forall₂ {β : Type} {decode : β → Option α} {l : List α} {l' : List β}
    (h : List.Forall₂ (fun x r => decode r = some x) l l') : l'.mapM decode = some l := by
  induction h with
  | nil => rfl
  | cons hx _ ih => rw [List.mapM_cons, hx, ih]; rfl

/-- Entries are found as they were written, whatever stands for their keys in the document. -/
theorem mapM_of_sameKey {κ κ' : Type} {key : κ → κ'} (unkey : κ' → κ) {encode : α → ω}
    {l : List (κ × α)} {l' : List (κ' × ρ)} (hkey : ∀ k, unkey (key k) = k)
    (h : ∀ e ∈ l, F.Conveys (encode e.2) decode e.2)
    (hl : List.Forall₂ (SameKey F.Reads) (l.map fun e => (key e.1, encode e.2)) l') :
    l'.mapM (fun e => (decode e.2).map (unkey e.1, ·)) = some l := by
  rw [List.forall₂_map_left_iff] at hl
  refine mapM_of_forall₂ (((List.forall₂_and_left _ _).2 ⟨h, hl⟩).imp ?_)
  rintro ⟨k, x⟩ ⟨k', r⟩ ⟨hx, rfl, hr⟩
  rw [hx.2 r hr, Option.map_some, hkey]

theorem conveys_list (F : Format ω ρ) {encode : α → ω} {l : List α}
    (h : ∀ x ∈ l, F.Conveys (encode x) decode x) :
    F.Conveys (ofList (l.map encode)) (toListOf? decode) l := by
  refine ⟨F.fit_list _ (List.forall_mem_map.2 fun x hx => (h x hx).1), fun r hr => ?_⟩
  obtain ⟨l', hl', hall⟩ := F.reads_list _ r hr
  rw [toListOf?, hl', Option.bind_some]
  rw [List.forall₂_map_left_iff] at hall
  exact mapM_of_forall₂
    (((List.forall₂_and_left _ _).2 ⟨h, hall⟩).imp fun x r hx => hx.1.2 r hx.2)

theorem conveys_named (F : Format ω ρ) {encode : α → ω} {l : List (String × α)}
    (h : ∀ e ∈ l, F.Conveys (encode e.2) decode e.2) :
    F.Conveys (ofNamed (l.map fun e => (e.1, encode e.2)))
      (fun r => (toNamed? r).bind (·.mapM fun e => (decode e.2).map (e.1, ·))) l := by
  refine ⟨F.fit_named _ (List.forall_mem_map.2 fun e he => (h e he).1), fun r hr => ?_⟩
  obtain ⟨l', hl', hall⟩ := F.reads_named _ r hr
  simp only [hl', Option.bind_some]
  exact mapM_of_sameKey id (fun _ => rfl) h hall

theorem conveys_numbered (F : Format ω ρ) {κ : Type} (key : κ → Nat) (unkey : Nat → κ) {bits : Nat}
    {encode : α → ω} {l : List (κ × α)} (hkey : ∀ k, unkey (key k) = k)
    (hbits : bits ≤ widestBits) (hfits : ∀ e ∈ l, fits bits (key e.1))
    (h : ∀ e ∈ l, F.Conveys (encode e.2) decode e.2) :
    F.Conveys (ofNumbered (l.map fun e => (key e.1, encode e.2)))
      (fun r => (toNumbered? bits r).bind (·.mapM fun e => (decode e.2).map (unkey e.1, ·))) l := by
  refine ⟨F.fit_numbered _ (List.forall_mem_map.2 fun e he =>
    ⟨fits_widest hbits (hfits e he), (h e he).1⟩), fun r hr => ?_⟩
  obtain ⟨l', hl', hall⟩ := F.reads_numbered bits _ r hr (List.forall_mem_map.2 hfits)
  simp only [hl', Option.bind_some, mapM_of_sameKey unkey hkey h hall]

/-! ## Optional values -/

/-- An optional value, written by `encode` where it is there. -/
def offer (encode : α → ω) (o : Option α) : ω := o.elim absent fun x => present (encode x)

theorem fit_offer {encode : α → ω} {o : Option α} (h : ∀ x ∈ o, F.Fit (encode x)) :
    F.Fit (offer encode o) := by
  cases o with
  | none => exact F.fit_absent
  | some x => exact F.fit_present _ (h x rfl)

/-- Where an optional value was written, one is found just if it was there. -/
theorem reads_offer {encode : α → ω} {o : Option α} {r : ρ}
    (h : ∀ x ∈ o, F.Conveys (encode x) decode x) (hne : ∀ x ∈ o, encode x ≠ absent)
    (hr : F.Reads (offer encode o) r) :
    ∃ o', toOption? r = some o' ∧ o'.map decode = o.map some := by
  cases o with
  | none => exact ⟨none, F.reads_absent r hr, rfl⟩
  | some x =>
    obtain ⟨r', hr', hread⟩ := F.reads_present _ r hr (hne x rfl)
    exact ⟨some r', hr', congrArg some ((h x rfl).2 r' hread)⟩

/-! ## Records -/

/-- Under each name the record holds what was written under that name. -/
def Holds (F : Format ω ρ) (l : List (String × ω)) (f : Fields ρ) : Prop :=
  ∀ e ∈ l, ∃ r, f.get? e.1 = some r ∧ F.Reads e.2 r

theorem Holds.required {l : List (String × ω)} {f : Fields ρ} {k : String} (hf : F.Holds l f)
    (hmem : (k, w) ∈ l) (h : F.Conveys w decode x) : f.required? k decode = some x := by
  obtain ⟨r, hr, hread⟩ := hf _ hmem
  rw [Fields.required?, hr, Option.bind_some, h.2 r hread]

theorem Holds.optional {l : List (String × ω)} {f : Fields ρ} {k : String} {encode : α → ω}
    {o : Option α} (hf : F.Holds l f) (hmem : (k, offer encode o) ∈ l)
    (h : ∀ x ∈ o, F.Conveys (encode x) decode x) (hne : ∀ x ∈ o, encode x ≠ absent) :
    f.optional? k decode = some o := by
  obtain ⟨r, hr, hread⟩ := hf _ hmem
  obtain ⟨o', ho', hmap⟩ := reads_offer h hne hread
  rw [Fields.optional?, hr]
  cases o <;> cases o' <;> simp_all

theorem fit_entries (keys : List String) {l : List (String × ω)} (hkeys : l.map (·.1) = keys)
    (hnames : areFieldNames keys) (hfit : (l.map (·.2)).Forall F.Fit) : FitFields F.Fit l :=
  ⟨hkeys ▸ hnames, fun _ he => List.forall_iff_forall_mem.1 hfit _ (List.mem_map_of_mem he)⟩

/-- A record is read by what `decode` makes of its fields. -/
theorem conveys_fields (F : Format ω ρ) {name : String} {keys : List String} {l : List (String × ω)}
    {decode : Fields ρ → Option α} (hkeys : l.map (·.1) = keys) (hnodup : keys.Nodup)
    (hnames : areFieldNames keys) (hfit : (l.map (·.2)).Forall F.Fit)
    (h : ∀ f, F.Holds l f → decode f = some x) :
    F.Conveys (ofFields l) (fun r => (toFields? name keys r).bind decode) x := by
  refine ⟨F.fit_fields l (fit_entries keys hkeys hnames hfit), fun r hr => ?_⟩
  subst hkeys
  obtain ⟨f, hf, hvalues⟩ := F.reads_fields name l r hr hnodup
  simp only [hf, Option.bind_some]
  exact h f fun e he => lookup_of_sameKey hvalues hnodup he

end Format

end ProcessNet
