/-
Names, numbers and texts as RON spells them. A name is spelled by letters and underscores, a number by its
decimal digits, and a text by its characters, some of them escaped. A reader that takes a spelling off the
front of a text stops right behind it, as long as a mark stands there that ends names and numbers.
-/
import Mathlib.Data.List.Infix
import ProcessNet.Format.Ron.Printer
import ProcessNet.Format.Ron.Reader
import ProcessNet.Proofs.Format.Document
import ProcessNet.Proofs.Text.Digits

namespace ProcessNet.Ron

variable {k : Nat} {c : Char} {m n cs rest : List Char} {w : String}

/-! ## Ends -/

-- Characters are finitely many, but what holds of the few in a list is not decided over all there are.

scoped instance (priority := high) decidableForallMem {p : Char → Prop} [DecidablePred p]
    (l : List Char) : Decidable (∀ c ∈ l, p c) :=
  List.decidableBAll p l

scoped instance (priority := high) decidableExistsMem {p : Char → Prop} [DecidablePred p]
    (l : List Char) : Decidable (∃ c ∈ l, p c) :=
  List.decidableBEx p l

/-- The marks that end a name or a number. -/
def stops : List Char := [',', ':', '(', ')']

/-- A text in front of which a name or a number ends. -/
def Ends (rest : List Char) : Prop := ∀ c ∈ rest.head?, c ∈ stops

theorem not_belongs_of_mem_stops (h : c ∈ stops) :
    isNameRest c = false ∧ isWholeChar c = false ∧ isRealChar c = false := by
  revert c
  decide

/-- A text without stops in front of a name that ends is part of the name. -/
theorem prefix_of_prefix_append (hrest : Ends rest) (hstop : ∀ c ∈ m, c ∉ stops)
    (h : m <+: n ++ rest) : m <+: n := by
  -- If it were longer than the name, it would go on with the first mark of the rest.
  rcases List.prefix_or_prefix_of_prefix h (List.prefix_append n rest) with h' | ⟨t, rfl⟩
  · exact h'
  · cases t with
    | nil => rw [List.append_nil]
    | cons c t =>
      obtain ⟨u, rfl⟩ := (List.prefix_append_right_inj n).1 h
      exact absurd (hrest c rfl) (hstop c (by simp))

/-! ## Names -/

/-- Letters and underscores, at least one. -/
def IsPlain (n : List Char) : Prop := n ≠ [] ∧ ∀ c ∈ n, c.isAlpha ∨ c = '_'

/-- A name with no meaning of its own. -/
def IsName (n : List Char) : Prop := isWord (String.ofList n)

theorem isName_toList (h : isWord w) : IsName w.toList := by
  rwa [IsName, String.ofList_toList]

theorem IsName.isPlain (h : IsName n) : IsPlain n := by
  simp only [IsName, isWord, Bool.and_eq_true, String.toList_ofList, List.all_eq_true,
    Bool.or_eq_true, beq_iff_eq, decide_eq_true_eq] at h
  refine ⟨?_, h.1⟩
  rintro rfl
  exact h.2 (by decide)

theorem isLetter_of_isAlpha (h : c.isAlpha) : Text.isLetter c := by
  have hascii : c.toNat < 0x80 := by
    rcases Bool.or_eq_true_iff.1 h with hupper | hlower
    · have hle : c.val ≤ 'Z'.val := (of_decide_eq_true hupper).2
      exact Nat.lt_of_le_of_lt hle (by decide)
    · have hle : c.val ≤ 'z'.val := of_decide_eq_true (Bool.and_eq_true_iff.1 hlower).2
      exact Nat.lt_of_le_of_lt hle (by decide)
  rw [Text.isLetter, if_pos hascii, h]

theorem isNameStart_of_plain (h : c.isAlpha ∨ c = '_') : isNameStart c := by
  rcases h with halpha | rfl
  · rw [isNameStart, isLetter_of_isAlpha halpha, Bool.true_or]
  · decide

theorem isNameRest_of_plain (h : c.isAlpha ∨ c = '_') : isNameRest c := by
  rcases h with halpha | rfl
  · exact Text.isNameRest_of_isLetter (isLetter_of_isAlpha halpha)
  · decide

theorem IsPlain.isNameRest (h : IsPlain n) (hc : c ∈ n) : isNameRest c :=
  isNameRest_of_plain (h.2 c hc)

/-- No name is one of the words that stand for a value. -/
theorem IsName.ne_reserved (h : IsName n) :
    ∀ w ∈ "Some" :: constants.map (·.1) ++ realWords, w.toList ≠ n := by
  intro w hw hn
  subst hn
  revert w
  simp only [IsName, String.ofList_toList]
  decide

theorem word?_append (hrest : Ends rest) : word? w (w.toList ++ rest) = some rest := by
  have hends : continuesName rest = false := by
    cases rest with
    | nil => rfl
    | cons c rest => exact (not_belongs_of_mem_stops (hrest c rfl)).1
  have hpre : w.toList.isPrefixOf (w.toList ++ rest) :=
    List.isPrefixOf_iff_prefix.2 (List.prefix_append _ _)
  have hdrop : (w.toList ++ rest).drop w.length = rest := by
    rw [← String.length_toList, List.drop_left]
  simp [word?, hpre, hdrop, hends]

/-- No other word is found where a name stands. -/
theorem word?_eq_none (hn : ∀ c ∈ n, isNameRest c) (hrest : Ends rest)
    (hstop : ∀ c ∈ w.toList, c ∉ stops) (hne : w.toList ≠ n) :
    word? w (n ++ rest) = none := by
  refine if_neg fun h => ?_
  rw [Bool.and_eq_true, List.isPrefixOf_iff_prefix] at h
  -- Either the word is the name, or the name goes on behind it.
  obtain ⟨t, rfl⟩ := prefix_of_prefix_append hrest hstop h.1
  cases t with
  | nil => exact hne (List.append_nil _).symm
  | cons c t =>
    have hcontinues := h.2
    rw [List.append_assoc, ← String.length_toList, List.drop_left] at hcontinues
    simp [continuesName, hn c (by simp)] at hcontinues

theorem findSome?_constants_eq_none (h : ∀ e ∈ constants, word? e.1 cs = none) :
    (constants.findSome? fun (w, v) => (word? w cs).map (v, ·)) = none :=
  List.findSome?_eq_none_iff.2 fun e he => congrArg (Option.map (e.2, ·)) (h e he)

theorem constant?_eq_none (hunit : ∀ rest, cs ≠ '(' :: ')' :: rest)
    (h : ∀ w ∈ constants.map (·.1) ++ realWords, word? w cs = none) : constant? cs = none := by
  rw [List.forall_mem_append, List.forall_mem_map] at h
  have hreal : realWord? cs = none :=
    List.findSome?_eq_none_iff.2 fun w hw => by rw [h.2 w hw, Option.map_none]
  unfold constant?
  split
  · exact absurd rfl (hunit _)
  · rw [findSome?_constants_eq_none h.1, hreal]
    rfl

theorem constant?_name (h : IsName n) (hrest : Ends rest) : constant? (n ++ rest) = none := by
  refine constant?_eq_none (fun rest' hcs => ?_) fun w hw => ?_
  · obtain ⟨c, n, rfl⟩ := List.exists_cons_of_ne_nil h.isPlain.1
    obtain rfl : c = '(' := (List.cons.inj hcs).1
    exact absurd (h.isPlain.2 '(' List.mem_cons_self) (by decide)
  · exact word?_eq_none (fun c hc => h.isPlain.isNameRest hc) hrest (by revert w; decide)
      (h.ne_reserved w (List.mem_cons_of_mem _ hw))

/-- Nothing that is no letter and no underscore begins a name, but a stop. -/
theorem not_prefix_name (h : IsPlain n) (hrest : Ends rest) (hstop : ∀ c ∈ m, c ∉ stops)
    (hc : ∃ c ∈ m, ¬ (c.isAlpha ∨ c = '_')) : ¬ m <+: n ++ rest := by
  intro hm
  obtain ⟨c, hc, hne⟩ := hc
  exact hne (h.2 c ((prefix_of_prefix_append hrest hstop hm).subset hc))

theorem name?_append (h : IsPlain n) (hrest : Ends rest) : name? (n ++ rest) = some (n, rest) := by
  have hliteral : literalMarks.any (·.isPrefixOf (n ++ rest)) = false := by
    refine List.any_eq_false.2 fun m hm => ?_
    rw [List.isPrefixOf_iff_prefix]
    exact not_prefix_name h hrest (by revert m; decide) (by revert m; decide)
  have hraw : ¬ ['r', '#'] <+: n ++ rest := not_prefix_name h hrest (by decide) ⟨'#', by decide⟩
  obtain ⟨c, n, rfl⟩ := List.exists_cons_of_ne_nil h.1
  unfold name?
  rw [hliteral, if_neg Bool.false_ne_true]
  split
  · rename_i hcs
    exact absurd (hcs ▸ ⟨_, rfl⟩) hraw
  · rename_i hcs
    rw [List.cons_append, List.cons.injEq] at hcs
    obtain ⟨rfl, rfl⟩ := hcs
    have hspan : (n ++ rest).span isNameRest = (n, rest) :=
      Text.span_append_rest (fun d hd => h.isNameRest (List.mem_cons_of_mem c hd))
        fun d hd => (not_belongs_of_mem_stops (hrest d hd)).1
    rw [if_pos (isNameStart_of_plain (h.2 c List.mem_cons_self)), hspan]
  · rename_i hcs
    cases hcs

/-- What begins like no name holds no word. -/
theorem word?_of_mark (h : isNameStart c = false) (hword : w.toList.head?.any isNameStart) :
    word? w (c :: cs) = none := by
  refine if_neg fun hpre => ?_
  rw [Bool.and_eq_true, List.isPrefixOf_iff_prefix] at hpre
  obtain ⟨t, ht⟩ := hpre.1
  cases hw : w.toList with
  | nil => simp [hw] at hword
  | cons d ds =>
    rw [hw, List.cons_append, List.cons.injEq] at ht
    simp [hw, ht.1, h] at hword

theorem name?_of_mark (h : isNameStart c = false) : name? (c :: cs) = none := by
  unfold name?
  split
  · rfl
  · split
    · rename_i hcs
      obtain rfl : c = 'r' := (List.cons.inj hcs).1
      exact absurd h (by decide)
    · rename_i hcs
      rw [List.cons.injEq] at hcs
      rw [← hcs.1, h, if_neg Bool.false_ne_true]
    · rfl

theorem constant?_of_mark (h : isNameStart c = false) (hunit : ∀ rest, c :: cs ≠ '(' :: ')' :: rest) :
    constant? (c :: cs) = none :=
  constant?_eq_none hunit fun w hw => word?_of_mark h (by revert w; decide)

/-! ## Numbers -/

theorem belongs_of_isDigit (h : c.isDigit) : isWholeChar c ∧ isRealChar c := by
  simp [isWholeChar, isRealChar, Text.digit?, h]

theorem sign_digits : sign (Nat.toDigits 10 k ++ rest) = (false, Nat.toDigits 10 k ++ rest) := by
  obtain ⟨d, ds, hds⟩ := List.exists_cons_of_ne_nil (Nat.toDigits_ne_nil (n := k) (b := 10))
  have hd : d.isDigit := Text.isDigit_of_mem_digits (hds ▸ List.mem_cons_self)
  rw [hds, List.cons_append]
  unfold sign
  split
  any_goals
    rename_i hcs
    rw [(List.cons.inj hcs).1] at hd
    cases hd
  rfl

/-- Behind the first digit stands another one, or the number ends. -/
theorem digits_append_ne {a b : Char} (hrest : Ends rest) (hb : b.isDigit = false)
    (hstop : b ∉ stops) : Nat.toDigits 10 k ++ rest ≠ a :: b :: cs := by
  intro h
  cases hds : Nat.toDigits 10 k with
  | nil => exact Nat.toDigits_ne_nil hds
  | cons d ds =>
    rw [hds, List.cons_append, List.cons.injEq] at h
    cases ds with
    | nil => exact hstop (hrest b (by rw [← List.nil_append rest, h.2]; rfl))
    | cons e ds =>
      have he : e.isDigit := Text.isDigit_of_mem_digits (by rw [hds]; simp)
      rw [(List.cons.inj h.2).1, hb] at he
      cases he

theorem ofSuffix?_of_ends (hrest : Ends rest) : IntegerType.ofSuffix? rest = none := by
  cases rest with
  | nil => decide
  | cons c rest =>
    have hstart : ∀ c ∈ stops, isNameStart c = false := by decide
    have hword : ∀ e ∈ IntegerType.named, e.1.toList.head?.any isNameStart := by decide
    exact List.findSome?_eq_none_iff.2 fun ⟨w, t⟩ hw =>
      congrArg (Option.map (t, ·)) (word?_of_mark (hstart c (hrest c rfl)) (hword _ hw))

theorem digits?_digits : digits? 10 (Nat.toDigits 10 k) = some k := by
  have hall : (Nat.toDigits 10 k).filter (· ≠ '_') = Nat.toDigits 10 k :=
    List.filter_eq_self.2 fun c hc => by
      have hdigit := Text.isDigit_of_mem_digits hc
      simp only [decide_eq_true_eq]
      rintro rfl
      cases hdigit
  unfold digits?
  split
  · rename_i hnil
    exact absurd hnil Nat.toDigits_ne_nil
  · rename_i cs hcs
    exact absurd (Text.isDigit_of_mem_digits (n := k) (hcs ▸ List.mem_cons_self)) (by decide)
  · rw [hall, Text.ofDigits?_toDigits (by decide) (by decide)]

theorem integer?_digits (hk : fits 64 k) (hrest : Ends rest) :
    integer? (Nat.toDigits 10 k ++ rest) = some (ofInt k, rest) := by
  have hspan : (Nat.toDigits 10 k ++ rest).span isWholeChar = (Nat.toDigits 10 k, rest) :=
    Text.span_append_rest (fun c hc => (belongs_of_isDigit (Text.isDigit_of_mem_digits hc)).1)
      fun c hc => (not_belongs_of_mem_stops (hrest c hc)).2.1
  have hcontains : (IntegerType.widest false).contains k = true := hk
  unfold integer?
  rw [sign_digits]
  dsimp only
  -- Decimal digits have none of the three letters that choose another base in second place.
  split
  case h_4 =>
    simp only [hspan, digits?_digits, ofSuffix?_of_ends hrest]
    simp [hcontains]
  all_goals
    rename_i hbase
    exact absurd hbase (digits_append_ne hrest (by decide) (by decide))

theorem number?_digits (hk : fits 64 k) (hrest : Ends rest) :
    number? (Nat.toDigits 10 k ++ rest) = some (ofInt k, rest) := by
  have hwhole : (Nat.toDigits 10 k ++ rest).takeWhile isWholeChar = Nat.toDigits 10 k :=
    Text.takeWhile_append_rest (fun c hc => (belongs_of_isDigit (Text.isDigit_of_mem_digits hc)).1)
      fun c hc => (not_belongs_of_mem_stops (hrest c hc)).2.1
  have hreal : (Nat.toDigits 10 k ++ rest).takeWhile isRealChar = Nat.toDigits 10 k :=
    Text.takeWhile_append_rest (fun c hc => (belongs_of_isDigit (Text.isDigit_of_mem_digits hc)).2)
      fun c hc => (not_belongs_of_mem_stops (hrest c hc)).2.2
  rw [number?, sign_digits, hwhole, hreal, if_neg (Nat.lt_irrefl _), integer?_digits hk hrest]
  rfl

/-! ## Texts -/

/-- The digits of a code point and the brace behind them are read as the character. -/
theorem codePoint?_hexadecimal (c : Char) (cs : List Char) :
    codePoint? ('\x7b' :: (Text.hexadecimal c.toNat ++ '\x7d' :: cs)) = some (c, cs) := by
  have hspan : (Text.hexadecimal c.toNat ++ '\x7d' :: cs).span (· ≠ '\x7d') =
      (Text.hexadecimal c.toNat, '\x7d' :: cs) := by
    refine Text.span_append_rest (fun d hd => ?_) fun d hd => ?_
    · have hall : ∀ k < 16, Nat.digitChar k ≠ '\x7d' := by decide
      obtain ⟨k, hk, rfl⟩ := Text.exists_digitChar (by decide) hd
      exact decide_eq_true (hall k hk)
    · cases hd
      decide
  have hvalid : c.toNat.isValidChar := c.valid
  -- Six digits are enough up to the last code point.
  have hlength : (Text.hexadecimal c.toNat).length ≤ 6 := by
    refine (Nat.length_toDigits_le_iff (by decide) (by decide)).2 ?_
    have : c.toNat < 0x110000 := by
      rcases hvalid with h | h <;> omega
    omega
  have hpos : 1 ≤ (Text.hexadecimal c.toNat).length := Nat.length_toDigits_pos
  have hdigits : Text.ofDigits? 16 (Text.hexadecimal c.toNat) = some c.toNat :=
    Text.ofDigits?_toDigits (by decide) (by decide) c.toNat
  rw [codePoint?, hspan]
  simp [hpos, hlength, hdigits, Text.scalar?, hvalid]

/-- A character is taken off the front in one step, however it is spelled. -/
theorem textRest?_escapeChar (fuel : Nat) (c : Char) (cs : List Char) :
    textRest? (fuel + 1) (Text.escapeChar marks c ++ cs) =
      (textRest? fuel cs).map fun (s, rest) => (c :: s, rest) := by
  unfold Text.escapeChar
  split_ifs with h₁ h₂ h₃ h₄ hmark hvisible
  any_goals
    subst c
    rfl
  · rw [List.contains_iff_mem] at hmark
    simp only [marks, List.mem_cons, List.not_mem_nil, or_false] at hmark
    rcases hmark with rfl | rfl | rfl <;> rfl
  · have hquote : c ≠ '"' := by
      rintro rfl
      exact hmark (by decide)
    have hslash : c ≠ '\\' := by
      rintro rfl
      exact hmark (by decide)
    rw [List.singleton_append, textRest?]
    · exact hquote
    · exact hslash
  · have hcode : escape? true (['u', '\x7b'] ++ Text.hexadecimal c.toNat ++ ['\x7d'] ++ cs) =
        some (c, cs) := by
      simpa [escape?] using codePoint?_hexadecimal c cs
    simp only [List.cons_append, List.nil_append] at hcode ⊢
    rw [textRest?, hcode]

theorem escapeChar_ne_nil : Text.escapeChar marks c ≠ [] := by
  unfold Text.escapeChar
  split_ifs <;> exact List.cons_ne_nil _ _

/-- A text ends at its closing quote, and at none before. -/
theorem textRest?_append {fuel : Nat} (cs rest : List Char)
    (hfuel : (cs.flatMap (Text.escapeChar marks)).length < fuel) :
    textRest? fuel (cs.flatMap (Text.escapeChar marks) ++ '"' :: rest) = some (cs, rest) := by
  induction cs generalizing fuel with
  | nil =>
    obtain ⟨fuel, rfl⟩ : ∃ k, fuel = k + 1 := ⟨fuel - 1, by omega⟩
    rfl
  | cons c cs ih =>
    obtain ⟨fuel, rfl⟩ : ∃ k, fuel = k + 1 := ⟨fuel - 1, by omega⟩
    have hpos : 0 < (Text.escapeChar marks c).length := List.length_pos_iff.2 escapeChar_ne_nil
    rw [List.flatMap_cons, List.length_append] at hfuel
    rw [List.flatMap_cons, List.append_assoc, textRest?_escapeChar, ih (by omega), Option.map_some]

end ProcessNet.Ron
