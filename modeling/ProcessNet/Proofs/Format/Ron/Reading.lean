/-
Values that are read back as they were printed. The reader takes a value off the front of its printed text
and stops right behind it; lines and rows of values follow by induction on their items. The number of
characters that are left pays for the steps of the reader: none of them takes more than two for each.
-/
import ProcessNet.Proofs.Format.Ron.Spelling

namespace ProcessNet.Ron

variable {v : Ron} {l : List Ron} {fields : List (List Char × Ron)} {entries : List (Ron × Ron)}
  {name : Option (List Char)} {level fuel k : Nat} {c closing : Char} {b n cs rest : List Char}

/-! ## Blanks -/

/-- Nothing but blanks. -/
def Blank (b : List Char) : Prop := ∀ c ∈ b, isBlank c

/-- A character that is no blank and begins no comment. -/
def Solid (c : Char) : Prop := isBlank c = false ∧ c ≠ '/'

theorem blank_nil : Blank [] := fun _ h => nomatch h

theorem blank_space : Blank [' '] := fun _ h => List.mem_singleton.1 h ▸ rfl

theorem blank_newLine (level : Nat) : Blank (newLine level) := by
  intro c hc
  rcases List.mem_cons.1 hc with rfl | hc
  · rfl
  · rw [List.eq_of_mem_replicate hc]
    rfl

theorem skipBlanks?_of_ne (h : c ≠ '/') :
    skipBlanks? (c :: cs) = if isBlank c then skipBlanks? cs else some (c :: cs) := by
  conv_lhs => unfold skipBlanks?
  split
  · rename_i hcs
    cases hcs
  · rename_i hcs
    exact absurd (List.cons.inj hcs).1 h
  · rename_i hcs
    exact absurd (List.cons.inj hcs).1 h
  · rename_i hcs
    rw [List.cons.injEq] at hcs
    rw [hcs.1, hcs.2]

theorem skipBlanks?_append (hb : Blank b) (hc : Solid c) :
    skipBlanks? (b ++ c :: cs) = some (c :: cs) := by
  induction b with
  | nil => rw [List.nil_append, skipBlanks?_of_ne hc.2, hc.1, if_neg Bool.false_ne_true]
  | cons d b ih =>
    have hd := hb d List.mem_cons_self
    have hne : d ≠ '/' := by
      rintro rfl
      cases hd
    rw [List.cons_append, skipBlanks?_of_ne hne, if_pos hd,
      ih fun c hc => hb c (List.mem_cons_of_mem d hc)]

theorem skipBlanks?_cons (hc : Solid c) : skipBlanks? (c :: cs) = some (c :: cs) :=
  skipBlanks?_append blank_nil hc

theorem solid_of_mem_stops : ∀ c ∈ stops, Solid c := by
  unfold Solid
  decide

theorem skipBlanks?_of_ends (hrest : Ends rest) : skipBlanks? rest = some rest := by
  cases rest with
  | nil =>
    unfold skipBlanks?
    rfl
  | cons c rest => exact skipBlanks?_cons (solid_of_mem_stops c (hrest c rfl))

/-! ## The values that are read back -/

/-- Names within the value are plain ones, its numbers are not too large, and none of its groups and
records is empty. -/
inductive Spelled : Ron → Prop
  | bool (value : Bool) : Spelled (.bool value)
  | absent : Spelled .absent
  | present {v : Ron} (h : Spelled v) : Spelled (.present v)
  | word {n : List Char} (h : IsName n) : Spelled (.word n)
  | integer {k : Nat} (h : fits 64 k) : Spelled (ofInt k)
  | text (cs : List Char) : Spelled (.text cs)
  | list {l : List Ron} (h : ∀ v ∈ l, Spelled v) : Spelled (.list l)
  | table {l : List (Ron × Ron)} (hkeys : ∀ e ∈ l, Spelled e.1) (h : ∀ e ∈ l, Spelled e.2) :
    Spelled (.table l)
  | group {name : Option (List Char)} {l : List Ron} (hname : ∀ n ∈ name, IsName n) (hne : l ≠ [])
    (h : ∀ v ∈ l, Spelled v) : Spelled (.group name l)
  | record {name : Option (List Char)} {l : List (List Char × Ron)} (hname : ∀ n ∈ name, IsName n)
    (hne : l ≠ []) (hfields : ∀ e ∈ l, IsName e.1) (h : ∀ e ∈ l, Spelled e.2) :
    Spelled (.record name l)

instance (c : Char) : Decidable (Solid c) := by
  unfold Solid
  exact inferInstance

/-- A character that a value can begin with. -/
def Opens (c : Char) : Prop := Solid c ∧ c ∉ [')', ']', '\x7d', '#']

instance (c : Char) : Decidable (Opens c) := by
  unfold Opens
  exact inferInstance

theorem opens_of_plain (h : c.isAlpha ∨ c = '_') : Opens c := by
  have hmarks : ∀ d ∈ ['/', ')', ']', '\x7d', '#'], ¬ (d.isAlpha ∨ d = '_') := by decide
  have hblank : ¬ isBlank c := by
    intro hblank
    simp only [isBlank, Bool.or_eq_true, beq_iff_eq, or_assoc] at hblank
    rcases hblank with rfl | rfl | rfl | rfl | rfl | rfl | rfl | rfl | rfl | rfl | rfl <;>
      exact absurd h (by decide)
  refine ⟨⟨by simpa using hblank, ?_⟩, fun hmem => hmarks c (List.mem_cons_of_mem _ hmem) h⟩
  rintro rfl
  exact hmarks '/' (by decide) h

/-- What digits never begin: a name, a text or something in brackets. -/
theorem digits_eq_cons (k : Nat) : ∃ d ds, Nat.toDigits 10 k = d :: ds ∧ Opens d ∧
    isNameStart d = false ∧ d ∉ ['(', '[', '\x7b', '"', '\'', 'r', 'b'] := by
  obtain ⟨d, ds, hds⟩ := List.exists_cons_of_ne_nil (Nat.toDigits_ne_nil (n := k) (b := 10))
  have hall : ∀ j < 10, Opens (Nat.digitChar j) ∧ isNameStart (Nat.digitChar j) = false ∧
      Nat.digitChar j ∉ ['(', '[', '\x7b', '"', '\'', 'r', 'b'] := by decide
  obtain ⟨j, hj, rfl⟩ := Text.exists_digitChar (by decide) (hds ▸ List.mem_cons_self)
  exact ⟨_, ds, hds, hall j hj⟩

theorem IsPlain.exists_cons (h : IsPlain n) : ∃ c ds, n = c :: ds ∧ Opens c := by
  obtain ⟨c, ds, rfl⟩ := List.exists_cons_of_ne_nil h.1
  exact ⟨c, ds, rfl, opens_of_plain (h.2 c List.mem_cons_self)⟩

/-- Parts on lines of their own. -/
def lines (level : Nat) (parts : List (List Char)) : List Char :=
  parts.flatMap fun cs => newLine level ++ cs ++ [',']

theorem lines_cons (level : Nat) (cs : List Char) (parts : List (List Char)) :
    lines level (cs :: parts) = newLine level ++ (cs ++ ',' :: lines level parts) := by
  simp [lines]

/-- The parts of a block stand on lines, and only blanks are left in front of its closing mark. -/
theorem exists_block (level : Nat) (opening closing : Char) (parts : List (List Char)) :
    ∃ b, Blank b ∧ block level opening closing parts =
      opening :: (lines (level + 1) parts ++ b ++ [closing]) := by
  cases parts with
  | nil => exact ⟨[], blank_nil, rfl⟩
  | cons cs parts => exact ⟨newLine level, blank_newLine level, rfl⟩

theorem prettyItems_eq (level : Nat) (l : List Ron) :
    prettyItems level l = l.map (prettyChars level) := by
  induction l with
  | nil => rfl
  | cons v l ih => exact congrArg (prettyChars level v :: ·) ih

theorem prettyEntries_eq (level : Nat) (l : List (Ron × Ron)) : prettyEntries level l =
    l.map fun e => prettyChars level e.1 ++ [':', ' '] ++ prettyChars level e.2 := by
  induction l with
  | nil => rfl
  | cons e l ih => exact congrArg (_ :: ·) ih

theorem prettyFields_eq (level : Nat) (l : List (List Char × Ron)) :
    prettyFields level l = l.map fun e => e.1 ++ [':', ' '] ++ prettyChars level e.2 := by
  induction l with
  | nil => rfl
  | cons e l ih => exact congrArg (_ :: ·) ih

theorem prettyChars_ofInt (level k : Nat) : prettyChars level (ofInt k) = Nat.toDigits 10 k := by
  change (toString k).toList ++ [] = _
  rw [Nat.toString_eq_ofList_toDigits, String.toList_ofList, List.append_nil]

/-- A value begins with a mark or a digit, or with a name that ends or has a parenthesis behind it. -/
theorem Spelled.begins (h : Spelled v) (level : Nat) :
    (∃ c ds, prettyChars level v = c :: ds ∧ Opens c ∧ isNameStart c = false) ∨
      ∃ n ds, prettyChars level v = n ++ ds ∧ IsPlain n ∧ (ds = [] ∨ ds.head? = some '(') := by
  cases h with
  | bool value =>
    cases value with
    | true => exact .inr ⟨"true".toList, [], rfl, by unfold IsPlain; decide, .inl rfl⟩
    | false => exact .inr ⟨"false".toList, [], rfl, by unfold IsPlain; decide, .inl rfl⟩
  | absent => exact .inr ⟨"None".toList, [], rfl, by unfold IsPlain; decide, .inl rfl⟩
  | present => exact .inr ⟨"Some".toList, _, rfl, by unfold IsPlain; decide, .inr rfl⟩
  | @word n h => exact .inr ⟨n, [], (List.append_nil n).symm, h.isPlain, .inl rfl⟩
  | @integer k =>
    obtain ⟨d, ds, hds, hd, hstart, _⟩ := digits_eq_cons k
    exact .inl ⟨d, ds, by rw [prettyChars_ofInt, hds], hd, hstart⟩
  | text => exact .inl ⟨'"', _, rfl, by decide, by decide⟩
  | list =>
    obtain ⟨b, _, hblock⟩ := exists_block level '[' ']' _
    exact .inl ⟨'[', _, hblock, by decide, by decide⟩
  | table =>
    obtain ⟨b, _, hblock⟩ := exists_block level '\x7b' '\x7d' _
    exact .inl ⟨'\x7b', _, hblock, by decide, by decide⟩
  | @group name l hname =>
    cases name with
    | none => exact .inl ⟨'(', _, rfl, by decide, by decide⟩
    | some n => exact .inr ⟨n, _, List.append_assoc _ _ _, (hname n rfl).isPlain, .inr rfl⟩
  | @record name l hname =>
    obtain ⟨b, _, hblock⟩ := exists_block level '(' ')' (prettyFields (level + 1) l)
    cases name with
    | none => exact .inl ⟨'(', _, hblock, by decide, by decide⟩
    | some n => exact .inr ⟨n, _, rfl, (hname n rfl).isPlain, .inr (hblock ▸ rfl)⟩

theorem Spelled.exists_cons (h : Spelled v) (level : Nat) :
    ∃ c ds, prettyChars level v = c :: ds ∧ Opens c := by
  obtain ⟨c, ds, hds, hc, _⟩ | ⟨n, ds, hds, hn, _⟩ := h.begins level
  · exact ⟨c, ds, hds, hc⟩
  · obtain ⟨c, n, rfl, hc⟩ := hn.exists_cons
    exact ⟨c, n ++ ds, hds, hc⟩

/-! ## The readers step by step -/

theorem value?_append (hb : Blank b) (hc : Opens c) :
    value? (fuel + 1) (b ++ c :: cs) = value? (fuel + 1) (c :: cs) := by
  simp only [value?, skipBlanks?_append hb hc.1, skipBlanks?_cons hc.1]

/-- Takes a value off the front that begins with a mark. -/
def marked? (fuel : Nat) : List Char → Option (Ron × List Char)
  | '(' :: rest => parenthesis? fuel none rest
  | '[' :: rest => (items? fuel ']' rest).map fun (l, rest) => (.list l, rest)
  | '\x7b' :: rest => (entries? fuel rest).map fun (l, rest) => (.table l, rest)
  | rest => literal? rest

/-- What begins like no name is in brackets or a literal. -/
theorem value?_of_mark (hc : Opens c) (hstart : isNameStart c = false)
    (hunit : ∀ rest, c :: cs ≠ '(' :: ')' :: rest) :
    value? (fuel + 1) (c :: cs) = marked? fuel (c :: cs) := by
  simp only [value?, skipBlanks?_cons hc.1, constant?_of_mark hstart hunit,
    word?_of_mark hstart (w := "Some") (by decide), name?_of_mark hstart]
  rfl

theorem value?_parenthesis (hunit : ∀ rest, cs ≠ ')' :: rest) :
    value? (fuel + 1) ('(' :: cs) = parenthesis? fuel none cs :=
  value?_of_mark (by decide) (by decide) fun _ h => hunit _ (List.cons.inj h).2

theorem value?_bracket :
    value? (fuel + 1) ('[' :: cs) = (items? fuel ']' cs).map fun (l, rest) => (.list l, rest) :=
  value?_of_mark (by decide) (by decide) fun _ h => absurd (List.cons.inj h).1 (by decide)

theorem value?_brace : value? (fuel + 1) ('\x7b' :: cs) =
    (entries? fuel cs).map fun (l, rest) => (.table l, rest) :=
  value?_of_mark (by decide) (by decide) fun _ h => absurd (List.cons.inj h).1 (by decide)

theorem value?_quoted (cs rest : List Char) :
    value? (fuel + 1) (quoted cs ++ rest) = some (.text cs, rest) := by
  have hvalue : value? (fuel + 1) (quoted cs ++ rest) = literal? (quoted cs ++ rest) :=
    value?_of_mark (by decide) (by decide) fun _ h => absurd (List.cons.inj h).1 (by decide)
  have hquoted : quoted cs ++ rest =
      '"' :: (cs.flatMap (Text.escapeChar marks) ++ '"' :: rest) := by
    simp [quoted]
  have hfuel : (cs.flatMap (Text.escapeChar marks)).length <
      (cs.flatMap (Text.escapeChar marks) ++ '"' :: rest).length + 1 := by
    rw [List.length_append]
    omega
  rw [hvalue, hquoted, literal?, textRest?_append cs rest hfuel, Option.map_some]

theorem value?_digits (hk : fits 64 k) (hrest : Ends rest) :
    value? (fuel + 1) (Nat.toDigits 10 k ++ rest) = some (ofInt k, rest) := by
  obtain ⟨d, ds, hds, hd, hstart, hmarks⟩ := digits_eq_cons k
  simp only [List.mem_cons, List.not_mem_nil, or_false, not_or] at hmarks
  have hliteral : literal? (d :: ds ++ rest) = number? (d :: ds ++ rest) := by
    unfold literal?
    split
    case h_7 => rfl
    all_goals
      rename_i hcs
      obtain ⟨rfl, _⟩ := List.cons.inj hcs
      simp at hmarks
  rw [← number?_digits hk hrest, hds, ← hliteral, List.cons_append, value?_of_mark hd hstart
    fun _ h => hmarks.1 (List.cons.inj h).1]
  unfold marked?
  split
  case h_4 => rfl
  all_goals
    rename_i hcs
    obtain ⟨rfl, _⟩ := List.cons.inj hcs
    simp at hmarks

/-- Takes what a name stands in front of off the front, if it stands in front of anything. -/
def named? (fuel : Nat) (n cs : List Char) : Option (Ron × List Char) :=
  match skipBlanks? cs with
  | none => none
  | some ('(' :: rest) => parenthesis? fuel (some n) rest
  | some rest => some (.word n, rest)

/-- What begins with a name is the name, or what the name stands in front of. -/
theorem value?_of_name (h : IsName n) (hrest : Ends rest) :
    value? (fuel + 1) (n ++ rest) = named? fuel n rest := by
  have hskip : skipBlanks? (n ++ rest) = some (n ++ rest) := by
    obtain ⟨c, ds, rfl, hc⟩ := h.isPlain.exists_cons
    exact skipBlanks?_cons hc.1
  have hsome : word? "Some" (n ++ rest) = none :=
    word?_eq_none (fun c hc => h.isPlain.isNameRest hc) hrest (by decide)
      (h.ne_reserved "Some" List.mem_cons_self)
  simp only [value?, hskip, constant?_name h hrest, hsome, name?_append h.isPlain hrest]
  rfl

theorem value?_word (h : IsName n) (hrest : Ends rest) (hne : ∀ cs, rest ≠ '(' :: cs) :
    value? (fuel + 1) (n ++ rest) = some (.word n, rest) := by
  rw [value?_of_name h hrest, named?, skipBlanks?_of_ends hrest]
  split
  · rename_i hcs
    cases hcs
  · rename_i hcs
    exact absurd (Option.some.inj hcs) (hne _)
  · rename_i hcs
    rw [Option.some.inj hcs]

theorem value?_named (h : IsName n) :
    value? (fuel + 1) (n ++ '(' :: cs) = parenthesis? fuel (some n) cs := by
  have hends : Ends ('(' :: cs) := fun c hc => by cases hc; decide
  rw [value?_of_name h hends, named?, skipBlanks?_of_ends hends]
  rfl

/-- What stands in parentheses is read together with the name in front, if there is one. -/
theorem value?_before_parenthesis (hname : ∀ n ∈ name, IsName n) (hunit : ∀ rest, cs ≠ ')' :: rest) :
    value? (fuel + 1) (name.getD [] ++ '(' :: cs) = parenthesis? fuel name cs := by
  cases name with
  | none => exact value?_parenthesis hunit
  | some n => exact value?_named (hname n rfl)

theorem findSome?_constants_append {w : String} (h : (w, v) ∈ constants) (hrest : Ends rest) :
    (constants.findSome? fun (u, v) => (word? u (w.toList ++ rest)).map (v, ·)) =
      some (v, rest) := by
  have hname : ∀ e ∈ constants, ∀ c ∈ e.1.toList, isNameRest c := by decide
  have hstop : ∀ e ∈ constants, ∀ c ∈ e.1.toList, c ∉ stops := by decide
  have hself : word? w (w.toList ++ rest) = some rest := word?_append hrest
  have hother : ∀ e ∈ constants, e.1 ≠ w → word? e.1 (w.toList ++ rest) = none :=
    fun e he hne => word?_eq_none (hname _ h) hrest (hstop e he) fun h => hne (String.toList_inj.1 h)
  simp only [constants, List.forall_mem_cons] at hother
  obtain ⟨htrue, hfalse, -⟩ := hother
  simp only [constants, List.mem_cons, Prod.mk.injEq, List.not_mem_nil, or_false] at h
  -- The words are tried in turn: those in front of the right one are not found.
  rcases h with ⟨rfl, rfl⟩ | ⟨rfl, rfl⟩ | ⟨rfl, rfl⟩
  · simp only [constants, List.findSome?_cons, hself, Option.map_some]
  · simp only [constants, List.findSome?_cons, htrue (by decide), hself, Option.map_none,
      Option.map_some]
  · simp only [constants, List.findSome?_cons, htrue (by decide), hfalse (by decide), hself,
      Option.map_none, Option.map_some]

theorem constant?_append {w : String} (h : (w, v) ∈ constants) (hrest : Ends rest) :
    constant? (w.toList ++ rest) = some (v, rest) := by
  unfold constant?
  split
  · rename_i hcs
    simp only [constants, List.mem_cons, Prod.mk.injEq, List.not_mem_nil, or_false] at h
    rcases h with ⟨rfl, rfl⟩ | ⟨rfl, rfl⟩ | ⟨rfl, rfl⟩ <;> cases hcs
  · rw [findSome?_constants_append h hrest]
    rfl

theorem value?_constant {w : String} (h : (w, v) ∈ constants) (hrest : Ends rest) :
    value? (fuel + 1) (w.toList ++ rest) = some (v, rest) := by
  have hskip : skipBlanks? (w.toList ++ rest) = some (w.toList ++ rest) := by
    simp only [constants, List.mem_cons, Prod.mk.injEq, List.not_mem_nil, or_false] at h
    rcases h with ⟨rfl, rfl⟩ | ⟨rfl, rfl⟩ | ⟨rfl, rfl⟩ <;> exact skipBlanks?_cons (by decide)
  simp only [value?, hskip, constant?_append h hrest]

theorem value?_some : value? (fuel + 1) ("Some".toList ++ '(' :: cs) = optional? fuel ('(' :: cs) := by
  have hends : Ends ('(' :: cs) := fun c hc => by cases hc; decide
  have hskip : skipBlanks? ("Some".toList ++ '(' :: cs) = some ("Some".toList ++ '(' :: cs) :=
    skipBlanks?_cons (by decide)
  have hconstant : constant? ("Some".toList ++ '(' :: cs) = none :=
    constant?_eq_none (fun _ h => absurd (List.cons.inj h).1 (by decide)) fun w hw =>
      word?_eq_none (by decide) hends (by revert w; decide) (by revert w; decide)
  have hsome : word? "Some" ("Some".toList ++ '(' :: cs) = some ('(' :: cs) := word?_append hends
  simp only [value?, hskip, hconstant, hsome]

theorem optional?_of_group (h : parenthesis? fuel none cs = some (.group none [v], rest)) :
    optional? (fuel + 1) ('(' :: cs) = some (.present v, rest) := by
  have hskip : skipBlanks? ('(' :: cs) = some ('(' :: cs) := skipBlanks?_cons (by decide)
  simp only [optional?, hskip, h]

/-! ## Fields or items -/

theorem field?_name (h : IsPlain n) (cs : List Char) :
    field? (n ++ ':' :: cs) = some (n, cs) := by
  have hends : Ends (':' :: cs) := fun c hc => by cases hc; decide
  simp [field?, name?_append h hends, skipBlanks?_of_ends hends]

theorem field?_of_name (h : IsPlain n) (hrest : Ends rest) (hne : ∀ cs, rest ≠ ':' :: cs) :
    field? (n ++ rest) = none := by
  simp only [field?, name?_append h hrest, Option.bind_eq_bind, Option.bind_some,
    skipBlanks?_of_ends hrest]

/-- A value is no field: no colon stands behind a name at its front. -/
theorem Spelled.field?_eq_none (h : Spelled v) (level : Nat) (hrest : Ends rest)
    (hne : ∀ cs, rest ≠ ':' :: cs) : field? (prettyChars level v ++ rest) = none := by
  obtain ⟨c, ds, hds, _, hstart⟩ | ⟨n, ds, hds, hn, hnil | hopen⟩ := h.begins level
  · rw [hds, List.cons_append, field?, name?_of_mark hstart]
    rfl
  · rw [hds, hnil, List.append_nil]
    exact field?_of_name hn hrest hne
  · obtain ⟨ds, rfl⟩ : ∃ ds', ds = '(' :: ds' := by
      cases ds with
      | nil => cases hopen
      | cons d ds => exact ⟨ds, by cases hopen; rfl⟩
    rw [hds, List.append_assoc]
    exact field?_of_name hn (fun c hc => by cases hc; decide) fun _ h => by cases h

theorem parenthesis?_items (hc : Opens c) (h : field? (c :: cs) = none) :
    parenthesis? (fuel + 1) name (c :: cs) =
      (items? fuel ')' (c :: cs)).map fun (l, rest) => (.group name l, rest) := by
  simp [parenthesis?, skipBlanks?_cons hc.1, h]

theorem parenthesis?_fields (hb : Blank b) (hc : Opens c) (h : (field? (c :: cs)).isSome) :
    parenthesis? (fuel + 1) name (b ++ c :: cs) =
      (fields? fuel (c :: cs)).map fun (l, rest) => (.record name l, rest) := by
  simp [parenthesis?, skipBlanks?_append hb hc.1, h]

/-! ## Items, fields and entries -/

/-- A text in front of which a value ends. -/
def EndsValue (rest : List Char) : Prop := ∀ c ∈ rest.head?, c ∈ [',', ':', ')']

theorem EndsValue.ends (h : EndsValue rest) : Ends rest := fun c hc => by
  have hall : ∀ c ∈ [',', ':', ')'], c ∈ stops := by decide
  exact hall c (h c hc)

theorem endsValue_nil : EndsValue [] := fun _ h => nomatch h

theorem endsValue_cons (h : c ∈ [',', ':', ')']) : EndsValue (c :: cs) := fun d hd => by
  cases hd
  exact h

/-- Wherever its printed text ends, the value is taken off the front. -/
def Taken (v : Ron) : Prop :=
  ∀ level fuel rest, EndsValue rest → 2 * (prettyChars level v).length < fuel →
    value? fuel (prettyChars level v ++ rest) = some (v, rest)

/-- Blanks in front of the value make no difference. -/
theorem Taken.append (h : Taken v) (hv : Spelled v) (hb : Blank b) (hrest : EndsValue rest)
    (hfuel : 2 * (prettyChars level v).length < fuel) :
    value? fuel (b ++ (prettyChars level v ++ rest)) = some (v, rest) := by
  obtain ⟨c, ds, hds, hc⟩ := hv.exists_cons level
  obtain ⟨fuel, rfl⟩ : ∃ k, fuel = k + 1 := ⟨fuel - 1, by omega⟩
  rw [← h level (fuel + 1) rest hrest hfuel, hds, List.cons_append, value?_append hb hc]

theorem items?_end (hb : Blank b) (hclosing : closing ∈ [']', ')']) :
    items? (fuel + 1) closing (b ++ closing :: rest) = some ([], rest) := by
  have hall : ∀ c ∈ [']', ')'], Solid c := by decide
  simp only [items?, skipBlanks?_append hb (hall _ hclosing), if_pos]

/-- The last item stands right in front of the closing mark. -/
theorem Taken.items?_last (h : Taken v) (hv : Spelled v) (hb : Blank b)
    (hfuel : 2 * (prettyChars level v).length < fuel) :
    items? (fuel + 1) ')' (b ++ (prettyChars level v ++ ')' :: rest)) = some ([v], rest) := by
  have hvalue := h level fuel (')' :: rest) (endsValue_cons (by decide)) hfuel
  have hclosing : skipBlanks? (')' :: rest) = some (')' :: rest) := skipBlanks?_cons (by decide)
  obtain ⟨c, ds, hds, hc⟩ := hv.exists_cons level
  have hne : c ≠ ')' := fun h => hc.2 (by simp [h])
  rw [hds, List.cons_append] at hvalue ⊢
  simp only [items?, skipBlanks?_append hb hc.1, if_neg hne, hvalue, hclosing, if_pos]

/-- More items follow behind a comma. -/
theorem Taken.items?_more (h : Taken v) (hv : Spelled v) (hb : Blank b)
    (hclosing : closing ∈ [']', ')']) (hfuel : 2 * (prettyChars level v).length < fuel) :
    items? (fuel + 1) closing (b ++ (prettyChars level v ++ ',' :: rest)) =
      (items? fuel closing rest).map fun (l, rest) => (v :: l, rest) := by
  have hvalue := h level fuel (',' :: rest) (endsValue_cons (by decide)) hfuel
  have hcomma : skipBlanks? (',' :: rest) = some (',' :: rest) := skipBlanks?_cons (by decide)
  have hne' : ',' ≠ closing := by
    rintro rfl
    exact absurd hclosing (by decide)
  obtain ⟨c, ds, hds, hc⟩ := hv.exists_cons level
  have hne : c ≠ closing := by
    have hall : ∀ d ∈ [']', ')'], ¬ Opens d := by decide
    rintro rfl
    exact hall c hclosing hc
  rw [hds, List.cons_append] at hvalue ⊢
  simp only [items?, skipBlanks?_append hb hc.1, if_neg hne, hvalue, hcomma, if_neg hne', if_pos]

/-- Items on lines. -/
theorem items?_lines (hl : ∀ v ∈ l, Spelled v ∧ Taken v) (hb : Blank b)
    (hfuel : 2 * (lines level (l.map (prettyChars level))).length < fuel) :
    items? fuel ']' (lines level (l.map (prettyChars level)) ++ (b ++ ']' :: rest)) =
      some (l, rest) := by
  induction l generalizing fuel with
  | nil =>
    obtain ⟨fuel, rfl⟩ : ∃ k, fuel = k + 1 := ⟨fuel - 1, by omega⟩
    exact items?_end hb (by decide)
  | cons v l ih =>
    obtain ⟨⟨hv, htaken⟩, hl⟩ := List.forall_mem_cons.1 hl
    obtain ⟨fuel, rfl⟩ : ∃ k, fuel = k + 1 := ⟨fuel - 1, by omega⟩
    rw [List.map_cons, lines_cons] at hfuel ⊢
    simp only [List.append_assoc, List.cons_append, List.length_append, List.length_cons] at hfuel ⊢
    rw [htaken.items?_more hv (blank_newLine level) (by decide) (by omega), ih hl (by omega)]
    rfl

/-- Items in a row, one at least. -/
theorem items?_row (hl : ∀ v ∈ l, Spelled v ∧ Taken v) (hne : l ≠ []) (hb : Blank b)
    (hfuel : 2 * (row (l.map (prettyChars level))).length + 1 < fuel) :
    items? fuel ')' (b ++ (row (l.map (prettyChars level)) ++ ')' :: rest)) = some (l, rest) := by
  -- All items but the first have a blank in front, so the blanks are left open.
  induction l generalizing fuel b with
  | nil => exact absurd rfl hne
  | cons v l ih =>
    obtain ⟨⟨hv, htaken⟩, hl⟩ := List.forall_mem_cons.1 hl
    obtain ⟨fuel, rfl⟩ : ∃ k, fuel = k + 1 := ⟨fuel - 1, by omega⟩
    cases l with
    | nil => exact htaken.items?_last hv hb (by simpa [row] using hfuel)
    | cons w l =>
      have hrow : row ((v :: w :: l).map (prettyChars level)) =
          prettyChars level v ++ ',' :: ([' '] ++ row ((w :: l).map (prettyChars level))) := by
        simp [row]
      rw [hrow] at hfuel ⊢
      simp only [List.length_append, List.length_cons] at hfuel
      rw [List.append_assoc, List.cons_append, List.append_assoc,
        htaken.items?_more hv hb (by decide) (by omega),
        ih hl (List.cons_ne_nil w l) blank_space (by omega)]
      rfl

theorem fields?_end (hb : Blank b) : fields? (fuel + 1) (b ++ ')' :: rest) = some ([], rest) := by
  have hskip : skipBlanks? (b ++ ')' :: rest) = some (')' :: rest) :=
    skipBlanks?_append hb (by decide)
  simp only [fields?, hskip]

/-- Blanks in front of the fields make no difference. -/
theorem fields?_append (hb : Blank b) (hc : Opens c) :
    fields? (fuel + 1) (b ++ c :: cs) = fields? (fuel + 1) (c :: cs) := by
  simp only [fields?, skipBlanks?_append hb hc.1, skipBlanks?_cons hc.1]

theorem fields?_more (hb : Blank b) (hn : IsName n)
    (h : value? fuel cs = some (v, ',' :: rest)) : fields? (fuel + 1) (b ++ (n ++ ':' :: cs)) =
      (fields? fuel rest).map fun (l, rest) => ((n, v) :: l, rest) := by
  have hfield : field? (n ++ ':' :: cs) = some (n, cs) := field?_name hn.isPlain cs
  obtain ⟨c, ds, hds, hc⟩ := hn.isPlain.exists_cons
  have hskip : skipBlanks? (b ++ (n ++ ':' :: cs)) = some (n ++ ':' :: cs) := by
    rw [hds]
    exact skipBlanks?_append hb hc.1
  have hcomma : skipBlanks? (',' :: rest) = some (',' :: rest) := skipBlanks?_cons (by decide)
  simp only [fields?, hskip]
  split
  · rename_i hcs
    cases hcs
  · rename_i hcs
    rw [hds] at hcs
    exact absurd (by simp [(List.cons.inj (Option.some.inj hcs)).1]) hc.2
  · rename_i hcs
    cases hcs
    simp only [hfield, h, hcomma]

theorem entries?_end (hb : Blank b) :
    entries? (fuel + 1) (b ++ '\x7d' :: rest) = some ([], rest) := by
  have hskip : skipBlanks? (b ++ '\x7d' :: rest) = some ('\x7d' :: rest) :=
    skipBlanks?_append hb (by decide)
  simp only [entries?, hskip]

theorem entries?_more {key : Ron} {ds : List Char} (hb : Blank b) (hc : Opens c)
    (hkey : value? fuel (c :: cs) = some (key, ':' :: ds))
    (h : value? fuel ds = some (v, ',' :: rest)) : entries? (fuel + 1) (b ++ c :: cs) =
      (entries? fuel rest).map fun (l, rest) => ((key, v) :: l, rest) := by
  have hcolon : skipBlanks? (':' :: ds) = some (':' :: ds) := skipBlanks?_cons (by decide)
  have hcomma : skipBlanks? (',' :: rest) = some (',' :: rest) := skipBlanks?_cons (by decide)
  simp only [entries?, skipBlanks?_append hb hc.1]
  split
  · rename_i hcs
    cases hcs
  · rename_i hcs
    exact absurd (by simp [(List.cons.inj (Option.some.inj hcs)).1]) hc.2
  · rename_i hcs
    cases hcs
    simp only [hkey, hcolon, h, hcomma]

/-- Fields on lines. -/
theorem fields?_lines {l : List (List Char × Ron)} (hname : ∀ e ∈ l, IsName e.1)
    (hl : ∀ e ∈ l, Spelled e.2 ∧ Taken e.2) (hb : Blank b)
    (hfuel : 2 * (lines level (prettyFields level l)).length < fuel) :
    fields? fuel (lines level (prettyFields level l) ++ (b ++ ')' :: rest)) = some (l, rest) := by
  induction l generalizing fuel with
  | nil =>
    obtain ⟨fuel, rfl⟩ : ∃ k, fuel = k + 1 := ⟨fuel - 1, by omega⟩
    exact fields?_end hb
  | cons e l ih =>
    obtain ⟨n, v⟩ := e
    simp only [List.forall_mem_cons] at hname hl
    obtain ⟨hn, hname⟩ := hname
    obtain ⟨⟨hv, htaken⟩, hl⟩ := hl
    obtain ⟨fuel, rfl⟩ : ∃ k, fuel = k + 1 := ⟨fuel - 1, by omega⟩
    rw [prettyFields_eq, List.map_cons, ← prettyFields_eq, lines_cons] at hfuel ⊢
    simp only [List.append_assoc, List.cons_append, List.nil_append, List.length_append,
      List.length_cons] at hfuel ⊢
    have hvalue : value? fuel ([' '] ++ (prettyChars level v ++
        ',' :: (lines level (prettyFields level l) ++ (b ++ ')' :: rest)))) = some (v, _) :=
      htaken.append hv blank_space (endsValue_cons (by decide)) (by omega)
    rw [List.cons_append, List.nil_append] at hvalue
    rw [fields?_more (blank_newLine level) hn hvalue, ih hname hl (by omega)]
    rfl

/-- Entries on lines. -/
theorem entries?_lines {l : List (Ron × Ron)} (hkeys : ∀ e ∈ l, Spelled e.1 ∧ Taken e.1)
    (hl : ∀ e ∈ l, Spelled e.2 ∧ Taken e.2) (hb : Blank b)
    (hfuel : 2 * (lines level (prettyEntries level l)).length < fuel) :
    entries? fuel (lines level (prettyEntries level l) ++ (b ++ '\x7d' :: rest)) =
      some (l, rest) := by
  induction l generalizing fuel with
  | nil =>
    obtain ⟨fuel, rfl⟩ : ∃ k, fuel = k + 1 := ⟨fuel - 1, by omega⟩
    exact entries?_end hb
  | cons e l ih =>
    obtain ⟨k, v⟩ := e
    simp only [List.forall_mem_cons] at hkeys hl
    obtain ⟨⟨hk, hktaken⟩, hkeys⟩ := hkeys
    obtain ⟨⟨hv, htaken⟩, hl⟩ := hl
    obtain ⟨fuel, rfl⟩ : ∃ k, fuel = k + 1 := ⟨fuel - 1, by omega⟩
    rw [prettyEntries_eq, List.map_cons, ← prettyEntries_eq, lines_cons] at hfuel ⊢
    simp only [List.append_assoc, List.cons_append, List.nil_append, List.length_append,
      List.length_cons] at hfuel ⊢
    have hvalue : value? fuel ([' '] ++ (prettyChars level v ++
        ',' :: (lines level (prettyEntries level l) ++ (b ++ '\x7d' :: rest)))) = some (v, _) :=
      htaken.append hv blank_space (endsValue_cons (by decide)) (by omega)
    have hkey := hktaken level fuel (':' :: ' ' :: (prettyChars level v ++
      ',' :: (lines level (prettyEntries level l) ++ (b ++ '\x7d' :: rest))))
      (endsValue_cons (by decide)) (by omega)
    obtain ⟨c, ds, hds, hc⟩ := hk.exists_cons level
    rw [hds, List.cons_append] at hkey ⊢
    rw [entries?_more (blank_newLine level) hc hkey hvalue, ih hkeys hl (by omega)]
    rfl

/-! ## Whole values -/

theorem row_eq (cs : List Char) (parts : List (List Char)) :
    ∃ ds, row (cs :: parts) = cs ++ ds ∧ ∀ c ∈ ds.head?, c = ',' := by
  cases parts with
  | nil => exact ⟨[], (List.append_nil cs).symm, nofun⟩
  | cons ds parts => exact ⟨',' :: ' ' :: row (ds :: parts), by simp [row], by simp⟩

/-- A group, behind its opening parenthesis. -/
theorem parenthesis?_row (hl : ∀ v ∈ l, Spelled v ∧ Taken v) (hne : l ≠ [])
    (hfuel : 2 * (row (l.map (prettyChars level))).length + 2 < fuel) :
    parenthesis? fuel name (row (l.map (prettyChars level)) ++ ')' :: rest) =
      some (.group name l, rest) := by
  obtain ⟨fuel, rfl⟩ : ∃ k, fuel = k + 1 := ⟨fuel - 1, by omega⟩
  have hitems : items? fuel ')' (row (l.map (prettyChars level)) ++ ')' :: rest) = some (l, rest) :=
    items?_row hl hne blank_nil (by omega)
  obtain ⟨v, l, rfl⟩ := List.exists_cons_of_ne_nil hne
  have hv := (hl v List.mem_cons_self).1
  -- A comma or the parenthesis stands behind the first item, so that is not taken for a field.
  obtain ⟨ds, hds, hcomma⟩ := row_eq (prettyChars level v) (l.map (prettyChars level))
  have hhead : ∀ c ∈ (ds ++ ')' :: rest).head?, c = ',' ∨ c = ')' := by
    intro c hc
    cases ds with
    | nil =>
      cases hc
      exact .inr rfl
    | cons d ds => exact .inl (hcomma c hc)
  have hfield : field? (prettyChars level v ++ (ds ++ ')' :: rest)) = none := by
    refine hv.field?_eq_none level (fun c hc => ?_) fun cs hcs => ?_
    · rcases hhead c hc with rfl | rfl <;> decide
    · exact absurd (hhead ':' (by rw [hcs]; rfl)) (by decide)
  obtain ⟨c, es, hes, hc⟩ := hv.exists_cons level
  rw [List.map_cons, hds, List.append_assoc] at hitems ⊢
  rw [hes, List.cons_append] at hitems hfield ⊢
  rw [parenthesis?_items hc hfield, hitems, Option.map_some]

/-- A record, behind its opening parenthesis. -/
theorem parenthesis?_lines (hname : ∀ e ∈ fields, IsName e.1)
    (hl : ∀ e ∈ fields, Spelled e.2 ∧ Taken e.2) (hne : fields ≠ []) (hb : Blank b)
    (hfuel : 2 * (lines level (prettyFields level fields)).length + 2 < fuel) :
    parenthesis? fuel name (lines level (prettyFields level fields) ++ (b ++ ')' :: rest)) =
      some (.record name fields, rest) := by
  obtain ⟨fuel, rfl⟩ : ∃ k, fuel = k + 2 := ⟨fuel - 2, by omega⟩
  have hfields : fields? (fuel + 1) (lines level (prettyFields level fields) ++ (b ++ ')' :: rest)) =
      some (fields, rest) := fields?_lines hname hl hb (by omega)
  obtain ⟨e, l, rfl⟩ := List.exists_cons_of_ne_nil hne
  have hplain := (hname e List.mem_cons_self).isPlain
  obtain ⟨c, ds, hds, hc⟩ := hplain.exists_cons
  rw [prettyFields_eq, List.map_cons, ← prettyFields_eq, lines_cons] at hfields ⊢
  simp only [List.append_assoc, List.cons_append, List.nil_append] at hfields ⊢
  have hfield := field?_name hplain (' ' :: (prettyChars level e.2 ++
    ',' :: (lines level (prettyFields level l) ++ (b ++ ')' :: rest))))
  rw [hds, List.cons_append] at hfields hfield ⊢
  rw [fields?_append (blank_newLine level) hc] at hfields
  rw [parenthesis?_fields (blank_newLine level) hc (by rw [hfield]; rfl), hfields, Option.map_some]

theorem taken_constant {w : String} (h : (w, v) ∈ constants)
    (htext : ∀ level, prettyChars level v = w.toList) : Taken v := by
  intro level fuel rest hrest hfuel
  obtain ⟨fuel, rfl⟩ : ∃ k, fuel = k + 1 := ⟨fuel - 1, by omega⟩
  rw [htext, value?_constant h hrest.ends]

theorem taken_present (h : Spelled v) (ht : Taken v) : Taken (.present v) := by
  intro level fuel rest hrest hfuel
  have htext : prettyChars level (.present v) =
      "Some".toList ++ '(' :: (row ([v].map (prettyChars level)) ++ [')']) := rfl
  rw [htext] at hfuel ⊢
  simp only [List.length_append, List.length_cons] at hfuel
  obtain ⟨fuel, rfl⟩ : ∃ k, fuel = k + 2 := ⟨fuel - 2, by omega⟩
  have hgroup : parenthesis? fuel none (row ([v].map (prettyChars level)) ++ ')' :: rest) =
      some (.group none [v], rest) :=
    parenthesis?_row (by simpa using ⟨h, ht⟩) (List.cons_ne_nil v []) (by omega)
  rw [List.append_assoc, List.cons_append, List.append_assoc, List.singleton_append, value?_some,
    optional?_of_group hgroup]

theorem taken_word (h : IsName n) : Taken (.word n) := by
  intro level fuel rest hrest hfuel
  obtain ⟨fuel, rfl⟩ : ∃ k, fuel = k + 1 := ⟨fuel - 1, by omega⟩
  refine value?_word h hrest.ends ?_
  rintro cs rfl
  exact absurd (hrest '(' rfl) (by decide)

theorem taken_integer (h : fits 64 k) : Taken (ofInt k) := by
  intro level fuel rest hrest hfuel
  obtain ⟨fuel, rfl⟩ : ∃ k, fuel = k + 1 := ⟨fuel - 1, by omega⟩
  rw [prettyChars_ofInt]
  exact value?_digits h hrest.ends

theorem taken_text (cs : List Char) : Taken (.text cs) := by
  intro level fuel rest hrest hfuel
  obtain ⟨fuel, rfl⟩ : ∃ k, fuel = k + 1 := ⟨fuel - 1, by omega⟩
  exact value?_quoted cs rest

theorem taken_list (hl : ∀ v ∈ l, Spelled v ∧ Taken v) : Taken (.list l) := by
  intro level fuel rest hrest hfuel
  obtain ⟨b, hb, hblock⟩ := exists_block level '[' ']' (prettyItems (level + 1) l)
  obtain ⟨fuel, rfl⟩ : ∃ k, fuel = k + 1 := ⟨fuel - 1, by omega⟩
  change 2 * (block level '[' ']' (prettyItems (level + 1) l)).length < _ at hfuel
  change value? _ (block level '[' ']' (prettyItems (level + 1) l) ++ rest) = _
  rw [hblock, prettyItems_eq] at hfuel ⊢
  simp only [List.length_append, List.length_cons] at hfuel
  rw [List.cons_append, List.append_assoc, List.append_assoc, List.singleton_append,
    value?_bracket, items?_lines hl hb (by omega), Option.map_some]

theorem taken_table (hkeys : ∀ e ∈ entries, Spelled e.1 ∧ Taken e.1)
    (hl : ∀ e ∈ entries, Spelled e.2 ∧ Taken e.2) : Taken (.table entries) := by
  intro level fuel rest hrest hfuel
  obtain ⟨b, hb, hblock⟩ := exists_block level '\x7b' '\x7d' (prettyEntries (level + 1) entries)
  obtain ⟨fuel, rfl⟩ : ∃ k, fuel = k + 1 := ⟨fuel - 1, by omega⟩
  change 2 * (block level '\x7b' '\x7d' (prettyEntries (level + 1) entries)).length < _ at hfuel
  change value? _ (block level '\x7b' '\x7d' (prettyEntries (level + 1) entries) ++ rest) = _
  rw [hblock] at hfuel ⊢
  simp only [List.length_append, List.length_cons] at hfuel
  rw [List.cons_append, List.append_assoc, List.append_assoc, List.singleton_append,
    value?_brace, entries?_lines hkeys hl hb (by omega), Option.map_some]

theorem taken_group (hname : ∀ n ∈ name, IsName n) (hne : l ≠ [])
    (hl : ∀ v ∈ l, Spelled v ∧ Taken v) : Taken (.group name l) := by
  intro level fuel rest hrest hfuel
  have htext : prettyChars level (.group name l) =
      name.getD [] ++ '(' :: row (prettyItems level l) ++ [')'] := rfl
  rw [htext, prettyItems_eq] at hfuel ⊢
  simp only [List.length_append, List.length_cons] at hfuel
  obtain ⟨fuel, rfl⟩ : ∃ k, fuel = k + 1 := ⟨fuel - 1, by omega⟩
  rw [List.append_assoc, List.append_assoc, List.cons_append, List.singleton_append,
    value?_before_parenthesis hname, parenthesis?_row hl hne (by omega)]
  -- The first item begins like no closing parenthesis, so this is not the unit.
  intro cs hcs
  obtain ⟨v, l, rfl⟩ := List.exists_cons_of_ne_nil hne
  obtain ⟨ds, hds, _⟩ := row_eq (prettyChars level v) (l.map (prettyChars level))
  obtain ⟨c, es, hes, hc⟩ := (hl v List.mem_cons_self).1.exists_cons level
  rw [List.map_cons, hds, hes] at hcs
  exact hc.2 (by simp [(List.cons.inj hcs).1])

theorem taken_record (hname : ∀ n ∈ name, IsName n) (hne : fields ≠ [])
    (hfields : ∀ e ∈ fields, IsName e.1) (hl : ∀ e ∈ fields, Spelled e.2 ∧ Taken e.2) :
    Taken (.record name fields) := by
  intro level fuel rest hrest hfuel
  obtain ⟨b, hb, hblock⟩ := exists_block level '(' ')' (prettyFields (level + 1) fields)
  have htext : prettyChars level (.record name fields) =
      name.getD [] ++ block level '(' ')' (prettyFields (level + 1) fields) := rfl
  rw [htext, hblock] at hfuel ⊢
  simp only [List.length_append, List.length_cons] at hfuel
  obtain ⟨fuel, rfl⟩ : ∃ k, fuel = k + 1 := ⟨fuel - 1, by omega⟩
  rw [List.append_assoc, List.cons_append, List.append_assoc, List.append_assoc,
    List.singleton_append, value?_before_parenthesis hname,
    parenthesis?_lines hfields hl hne hb (by omega)]
  intro cs hcs
  obtain ⟨e, l, rfl⟩ := List.exists_cons_of_ne_nil hne
  rw [prettyFields_eq, List.map_cons, lines_cons] at hcs
  exact absurd (List.cons.inj hcs).1 (by decide)

/-- Every value is taken off the front of its printed text. -/
theorem Spelled.taken (h : Spelled v) : Taken v := by
  induction h with
  | bool value =>
    cases value with
    | true => exact taken_constant (w := "true") (by simp [constants]) fun _ => rfl
    | false => exact taken_constant (w := "false") (by simp [constants]) fun _ => rfl
  | absent => exact taken_constant (w := "None") (by simp [constants]) fun _ => rfl
  | present h ih => exact taken_present h ih
  | word h => exact taken_word h
  | integer h => exact taken_integer h
  | text cs => exact taken_text cs
  | list h ih => exact taken_list fun v hv => ⟨h v hv, ih v hv⟩
  | table hkeys h ihkeys ih =>
    exact taken_table (fun e he => ⟨hkeys e he, ihkeys e he⟩) fun e he => ⟨h e he, ih e he⟩
  | group hname hne h ih => exact taken_group hname hne fun v hv => ⟨h v hv, ih v hv⟩
  | record hname hne hfields h ih =>
    exact taken_record hname hne hfields fun e he => ⟨h e he, ih e he⟩

/-- No attribute stands in front of a value. -/
theorem attributes?_of_opens {e : Extensions} (hc : Opens c) :
    attributes? e (fuel + 1) (c :: cs) = some (e, c :: cs) := by
  have hmark : (c :: cs).head? ≠ some '#' := fun h => hc.2 (by simp [Option.some.inj h])
  simp only [attributes?, skipBlanks?_cons hc.1, Option.bind_eq_bind, Option.bind_some, if_neg hmark]

/-- What is printed is read back. -/
theorem parse?_pretty (h : Spelled v) : parse? v.pretty = some ({}, v) := by
  have hattributes : attributes? {} ((prettyChars 0 v).length + 1) (prettyChars 0 v) =
      some ({}, prettyChars 0 v) := by
    obtain ⟨c, ds, hds, hc⟩ := h.exists_cons 0
    rw [hds, attributes?_of_opens hc]
  have hvalue := h.taken 0 (2 * (prettyChars 0 v).length + 1) [] endsValue_nil (by omega)
  have hrest : skipBlanks? [] = some [] := skipBlanks?_of_ends endsValue_nil.ends
  rw [List.append_nil] at hvalue
  rw [parse?, pretty, String.toList_ofList]
  simp only [hattributes, hvalue, hrest, Option.bind_eq_bind, Option.bind_some, List.isEmpty_nil,
    if_true]

end ProcessNet.Ron
