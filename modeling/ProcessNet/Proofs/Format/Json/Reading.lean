/-
Texts that spell JSON values. `Spells` is the grammar, with blanks wherever they may stand, for values
whose numbers and strings are spelled in the one way that the printers know. The reader takes a value off
the front of every text that spells it, and both printers write such texts; so what is printed is read
back, in a row or on lines.
-/
import ProcessNet.Format.Json.Printer
import ProcessNet.Proofs.Format.Json.Spelling

namespace ProcessNet.Json

variable {v : Json} {l : List Json} {members : List (List Char × Json)} {c : Char} {fuel : Nat}
  {b b' cs rest : List Char}

/-! ## Blanks -/

/-- Nothing but blanks. -/
def Blank (b : List Char) : Prop := ∀ c ∈ b, isBlank c

theorem blank_nil : Blank [] := fun _ h => nomatch h

theorem blank_newLine (level : Nat) : Blank (newLine level) := by
  intro c hc
  rcases List.mem_cons.1 hc with rfl | hc
  · rfl
  · rw [List.eq_of_mem_replicate hc]
    rfl

theorem skipBlanks_append (hb : Blank b) (hc : isBlank c = false) :
    skipBlanks (b ++ c :: cs) = c :: cs := by
  rw [skipBlanks, List.dropWhile_append_of_pos hb, List.dropWhile_cons_of_neg (by simp [hc])]

/-- A number ends in front of blanks and a mark. -/
theorem endsNumber_append (hb : Blank b) (hc : EndsNumber (c :: cs)) : EndsNumber (b ++ c :: cs) := by
  cases b with
  | nil => exact hc
  | cons d b =>
    intro e he
    cases he
    have hd := hb d List.mem_cons_self
    simp only [isBlank, Bool.or_eq_true, beq_iff_eq] at hd
    rcases hd with ((rfl | rfl) | rfl) | rfl <;> decide

/-! ## The grammar -/

mutual

/-- The text spells the value. -/
inductive Spells : Json → List Char → Prop
  | null : Spells .null ['n', 'u', 'l', 'l']
  | yes : Spells (.bool true) ['t', 'r', 'u', 'e']
  | no : Spells (.bool false) ['f', 'a', 'l', 's', 'e']
  | number (n : Nat) : Spells (.number (digits n)) (digits n)
  | string (cs : List Char) : Spells (.string (escape cs)) ('"' :: escape cs ++ ['"'])
  | emptyArray : Spells (.array []) ['[', ']']
  | array {b cs : List Char} {l : List Json} (hb : Blank b) (h : SpellsItems l cs) :
    Spells (.array l) ('[' :: b ++ cs)
  | emptyObject : Spells (.object []) ['\x7b', '\x7d']
  | object {b cs : List Char} {l : List (List Char × Json)} (hb : Blank b)
    (h : SpellsMembers l cs) : Spells (.object l) ('\x7b' :: b ++ cs)

/-- The text spells one or more items, up to the closing bracket. -/
inductive SpellsItems : List Json → List Char → Prop
  | last {v : Json} {b cs : List Char} (h : Spells v cs) (hb : Blank b) :
    SpellsItems [v] (cs ++ b ++ [']'])
  | more {v : Json} {l : List Json} {b b' cs ds : List Char} (h : Spells v cs) (hb : Blank b)
    (hb' : Blank b') (hl : SpellsItems l ds) : SpellsItems (v :: l) (cs ++ b ++ ',' :: b' ++ ds)

/-- The text spells one or more members, up to the closing brace. -/
inductive SpellsMembers : List (List Char × Json) → List Char → Prop
  | last {v : Json} {b b' key cs : List Char} (hb' : Blank b') (h : Spells v cs) (hb : Blank b) :
    SpellsMembers [(escape key, v)] ('"' :: escape key ++ '"' :: ':' :: b' ++ cs ++ b ++ ['\x7d'])
  | more {v : Json} {l : List (List Char × Json)} {b b' b'' key cs ds : List Char} (hb' : Blank b')
    (h : Spells v cs) (hb : Blank b) (hb'' : Blank b'') (hl : SpellsMembers l ds) :
    SpellsMembers ((escape key, v) :: l)
      ('"' :: escape key ++ '"' :: ':' :: b' ++ cs ++ b ++ ',' :: b'' ++ ds)

end

/-- A value begins with no blank and with no closing mark. -/
theorem Spells.exists_cons (h : Spells v cs) :
    ∃ c ds, cs = c :: ds ∧ isBlank c = false ∧ c ≠ ']' := by
  cases h with
  | number n =>
    cases hds : digits n with
    | nil => exact absurd hds digits_ne_nil
    | cons d ds =>
      have hd : d.isDigit := isDigit_of_mem_digits (hds ▸ List.mem_cons_self)
      refine ⟨d, ds, rfl, ?_, ?_⟩
      · rw [← Bool.not_eq_true]
        intro hblank
        simp only [isBlank, Bool.or_eq_true, beq_iff_eq] at hblank
        rcases hblank with ((rfl | rfl) | rfl) | rfl <;> cases hd
      · rintro rfl
        cases hd
  | _ => exact ⟨_, _, rfl, rfl, by decide⟩

theorem SpellsItems.exists_cons (h : SpellsItems l cs) :
    ∃ c ds, cs = c :: ds ∧ isBlank c = false ∧ c ≠ ']' := by
  cases h with
  | last h _ | more h _ _ _ =>
    obtain ⟨c, ds, rfl, hc⟩ := h.exists_cons
    exact ⟨c, _, rfl, hc⟩

theorem SpellsMembers.exists_cons (h : SpellsMembers members cs) : ∃ ds, cs = '"' :: ds := by
  cases h with
  | last | more => exact ⟨_, rfl⟩

/-! ## Reading -/

/-- What begins with a digit is read as a number. -/
theorem value?_of_isDigit (h : c.isDigit) :
    value? (fuel + 1) (c :: cs) = (number? (c :: cs)).map fun (n, rest) => (.number n, rest) := by
  have hblank : isBlank c = false := by
    rw [← Bool.not_eq_true]
    intro hblank
    simp only [isBlank, Bool.or_eq_true, beq_iff_eq] at hblank
    rcases hblank with ((rfl | rfl) | rfl) | rfl <;> cases h
  rw [value?, ← List.nil_append (c :: cs), skipBlanks_append blank_nil hblank]
  split
  case h_1 he => cases he
  case h_8 => rfl
  all_goals
    rename_i he
    cases he
    cases h

/-- Blanks in front make no difference to a reader. -/
theorem value?_append (hb : Blank b) (hc : isBlank c = false) :
    value? (fuel + 1) (b ++ c :: cs) = value? (fuel + 1) (c :: cs) := by
  have hnone : skipBlanks (c :: cs) = c :: cs := skipBlanks_append blank_nil hc
  rw [value?, value?, skipBlanks_append hb hc, hnone]

theorem value?_bracket (hb : Blank b) (hc : isBlank c = false) (hne : c ≠ ']') :
    value? (fuel + 1) ('[' :: (b ++ c :: cs)) =
      (items? fuel (c :: cs)).map fun (l, rest) => (.array l, rest) := by
  have hmark : skipBlanks ('[' :: (b ++ c :: cs)) = '[' :: (b ++ c :: cs) := rfl
  simp only [value?, hmark, skipBlanks_append hb hc]
  split
  · rename_i he
    exact absurd (List.cons.inj he).1 hne
  · rfl

theorem value?_brace (hb : Blank b) :
    value? (fuel + 1) ('\x7b' :: (b ++ '"' :: cs)) =
      (members? fuel ('"' :: cs)).map fun (l, rest) => (.object l, rest) := by
  have hmark : skipBlanks ('\x7b' :: (b ++ '"' :: cs)) = '\x7b' :: (b ++ '"' :: cs) := rfl
  have hquote : skipBlanks (b ++ '"' :: cs) = '"' :: cs := skipBlanks_append hb (by decide)
  simp only [value?, hmark, hquote]
  rfl

/-- Behind a value that was taken off comes the end of the array. -/
theorem items?_last (h : value? fuel cs = some (v, b ++ ']' :: rest)) (hb : Blank b) :
    items? (fuel + 1) cs = some ([v], rest) := by
  have hmark : skipBlanks (b ++ ']' :: rest) = ']' :: rest := skipBlanks_append hb (by decide)
  simp only [items?, h, hmark]

/-- Behind a value that was taken off come more items. -/
theorem items?_more (h : value? fuel cs = some (v, b ++ ',' :: rest)) (hb : Blank b) :
    items? (fuel + 1) cs = (items? fuel rest).map fun (l, rest) => (v :: l, rest) := by
  have hmark : skipBlanks (b ++ ',' :: rest) = ',' :: rest := skipBlanks_append hb (by decide)
  simp only [items?, h, hmark]

/-- Behind the value of a member that was taken off comes the end of the object. -/
theorem members?_last {key : List Char} (hb' : Blank b')
    (h : value? fuel cs = some (v, b ++ '\x7d' :: rest)) (hb : Blank b) :
    members? (fuel + 1) (b' ++ '"' :: (escape key ++ '"' :: ':' :: cs)) =
      some ([(escape key, v)], rest) := by
  have hquote : skipBlanks (b' ++ '"' :: (escape key ++ '"' :: ':' :: cs)) = _ :=
    skipBlanks_append hb' (by decide)
  have hcolon : skipBlanks (':' :: cs) = ':' :: cs := skipBlanks_append blank_nil (by decide)
  have hmark : skipBlanks (b ++ '\x7d' :: rest) = '\x7d' :: rest := skipBlanks_append hb (by decide)
  simp only [members?, hquote, stringRest?_escape, hcolon, h, hmark]

/-- Behind the value of a member that was taken off come more members. -/
theorem members?_more {key : List Char} (hb' : Blank b')
    (h : value? fuel cs = some (v, b ++ ',' :: rest)) (hb : Blank b) :
    members? (fuel + 1) (b' ++ '"' :: (escape key ++ '"' :: ':' :: cs)) =
      (members? fuel rest).map fun (l, rest) => ((escape key, v) :: l, rest) := by
  have hquote : skipBlanks (b' ++ '"' :: (escape key ++ '"' :: ':' :: cs)) = _ :=
    skipBlanks_append hb' (by decide)
  have hcolon : skipBlanks (':' :: cs) = ':' :: cs := skipBlanks_append blank_nil (by decide)
  have hmark : skipBlanks (b ++ ',' :: rest) = ',' :: rest := skipBlanks_append hb (by decide)
  simp only [members?, hquote, stringRest?_escape, hcolon, h, hmark]

theorem endsNumber_mark (hb : Blank b) (hc : c = ',' ∨ c = ']' ∨ c = '\x7d') :
    EndsNumber (b ++ c :: cs) := by
  refine endsNumber_append hb fun d hd => ?_
  cases hd
  rcases hc with rfl | rfl | rfl <;> decide

mutual

/-- A value is taken off the front of a text that spells it. -/
theorem value?_of_spells {v : Json} {cs b rest : List Char} {fuel : Nat} (h : Spells v cs)
    (hrest : EndsNumber rest) (hfuel : cs.length < fuel) (hb : Blank b) :
    value? fuel (b ++ (cs ++ rest)) = some (v, rest) := by
  obtain ⟨fuel, rfl⟩ : ∃ k, fuel = k + 1 := ⟨fuel - 1, by omega⟩
  obtain ⟨c, ds, hcs, hc, _⟩ := h.exists_cons
  rw [hcs, List.cons_append, value?_append hb hc, ← List.cons_append, ← hcs]
  cases h with
  | null | yes | no | emptyArray | emptyObject => rfl
  | number n =>
    have hd : c.isDigit := isDigit_of_mem_digits (hcs ▸ List.mem_cons_self)
    rw [hcs, List.cons_append, value?_of_isDigit hd, ← List.cons_append, ← hcs,
      number?_digits hrest]
    rfl
  | string t =>
    have hstring : (stringRest? (escape t ++ '"' :: rest)).map (fun (s, rest) => (Json.string s, rest))
        = some (.string (escape t), rest) := by
      rw [stringRest?_escape, Option.map_some]
    rw [List.cons_append, List.cons_append, List.append_assoc]
    exact hstring
  | @array b₁ cs l hb₁ h =>
    obtain ⟨d, es, rfl, hd, hne⟩ := h.exists_cons
    rw [List.cons_append, List.length_cons, List.length_append] at hfuel
    have hitems : items? fuel (d :: es ++ rest) = some (l, rest) :=
      items?_of_spells h (by omega) blank_nil
    rw [List.cons_append] at hitems
    rw [List.cons_append, List.cons_append, List.append_assoc, List.cons_append,
      value?_bracket hb₁ hd hne, hitems]
    rfl
  | @object b₁ cs l hb₁ h =>
    obtain ⟨es, rfl⟩ := h.exists_cons
    rw [List.cons_append, List.length_cons, List.length_append] at hfuel
    have hmembers : members? fuel ('"' :: es ++ rest) = some (l, rest) :=
      members?_of_spells h (by omega) blank_nil
    rw [List.cons_append] at hmembers
    rw [List.cons_append, List.cons_append, List.append_assoc, List.cons_append,
      value?_brace hb₁, hmembers]
    rfl

/-- The items of an array are taken off the front of a text that spells them. -/
theorem items?_of_spells {l : List Json} {cs b rest : List Char} {fuel : Nat}
    (h : SpellsItems l cs) (hfuel : cs.length < fuel) (hb : Blank b) :
    items? fuel (b ++ (cs ++ rest)) = some (l, rest) := by
  obtain ⟨fuel, rfl⟩ : ∃ k, fuel = k + 1 := ⟨fuel - 1, by omega⟩
  cases h with
  | @last v b₁ cs h hb₁ =>
    simp only [List.length_append, List.length_singleton] at hfuel
    have hvalue : value? fuel (b ++ (cs ++ (b₁ ++ ']' :: rest))) = some (v, b₁ ++ ']' :: rest) :=
      value?_of_spells h (endsNumber_mark hb₁ (.inr (.inl rfl))) (by omega) hb
    simp only [List.append_assoc, List.singleton_append]
    exact items?_last hvalue hb₁
  | @more v l b₁ b₂ cs ds h hb₁ hb₂ hl =>
    simp only [List.length_append, List.length_cons] at hfuel
    have hvalue : value? fuel (b ++ (cs ++ (b₁ ++ ',' :: (b₂ ++ (ds ++ rest))))) =
        some (v, b₁ ++ ',' :: (b₂ ++ (ds ++ rest))) :=
      value?_of_spells h (endsNumber_mark hb₁ (.inl rfl)) (by omega) hb
    have hitems : items? fuel (b₂ ++ (ds ++ rest)) = some (l, rest) :=
      items?_of_spells hl (by omega) hb₂
    simp only [List.append_assoc, List.cons_append]
    rw [items?_more hvalue hb₁, hitems]
    rfl

/-- The members of an object are taken off the front of a text that spells them. -/
theorem members?_of_spells {l : List (List Char × Json)} {cs b rest : List Char} {fuel : Nat}
    (h : SpellsMembers l cs) (hfuel : cs.length < fuel) (hb : Blank b) :
    members? fuel (b ++ (cs ++ rest)) = some (l, rest) := by
  obtain ⟨fuel, rfl⟩ : ∃ k, fuel = k + 1 := ⟨fuel - 1, by omega⟩
  cases h with
  | @last v b₁ b₂ key cs hb₂ h hb₁ =>
    simp only [List.length_append, List.length_cons] at hfuel
    have hvalue : value? fuel (b₂ ++ (cs ++ (b₁ ++ '\x7d' :: rest))) =
        some (v, b₁ ++ '\x7d' :: rest) :=
      value?_of_spells h (endsNumber_mark hb₁ (.inr (.inr rfl))) (by omega) hb₂
    simp only [List.append_assoc, List.cons_append, List.nil_append]
    exact members?_last hb hvalue hb₁
  | @more v l b₁ b₂ b₃ key cs ds hb₂ h hb₁ hb₃ hl =>
    simp only [List.cons_append, List.length_append, List.length_cons] at hfuel
    have hvalue : value? fuel (b₂ ++ (cs ++ (b₁ ++ ',' :: (b₃ ++ (ds ++ rest))))) =
        some (v, b₁ ++ ',' :: (b₃ ++ (ds ++ rest))) :=
      value?_of_spells h (endsNumber_mark hb₁ (.inl rfl)) (by omega) hb₂
    have hmembers : members? fuel (b₃ ++ (ds ++ rest)) = some (l, rest) :=
      members?_of_spells hl (by omega) hb₃
    simp only [List.append_assoc, List.cons_append]
    rw [members?_more hb hvalue hb₁, hmembers]
    rfl

end

/-- A text that spells a value holds that value and nothing else. -/
theorem first?_of_spells (h : Spells v cs) : first? (String.ofList cs) = some (v, true) := by
  have hvalue : value? (cs.length + 1) ([] ++ (cs ++ [])) = some (v, []) :=
    value?_of_spells h (fun c hc => nomatch hc) (Nat.lt_succ_self _) blank_nil
  rw [List.nil_append, List.append_nil] at hvalue
  rw [first?, String.toList_ofList, hvalue]
  rfl

/-! ## Printing -/

/-- Numbers and strings within the value are spelled in the way that the printers know. -/
inductive Spelled : Json → Prop
  | null : Spelled .null
  | bool (b : Bool) : Spelled (.bool b)
  | number (n : Nat) : Spelled (.number (digits n))
  | string (cs : List Char) : Spelled (.string (escape cs))
  | array {l : List Json} (h : ∀ v ∈ l, Spelled v) : Spelled (.array l)
  | object {l : List (List Char × Json)} (hkey : ∀ e ∈ l, ∃ cs, e.1 = escape cs)
    (h : ∀ e ∈ l, Spelled e.2) : Spelled (.object l)

theorem compactItems_eq (l : List Json) : compactItems l = l.map compactChars := by
  induction l with
  | nil => rfl
  | cons v l ih => rw [compactItems, ih, List.map_cons]

theorem compactMembers_eq (l : List (List Char × Json)) :
    compactMembers l = l.map fun e => '"' :: e.1 ++ ['"', ':'] ++ compactChars e.2 := by
  induction l with
  | nil => rfl
  | cons e l ih => rw [compactMembers, ih, List.map_cons]

theorem prettyItems_eq (level : Nat) (l : List Json) :
    prettyItems level l = l.map (prettyChars level) := by
  induction l with
  | nil => rfl
  | cons v l ih => rw [prettyItems, ih, List.map_cons]

theorem prettyMembers_eq (level : Nat) (l : List (List Char × Json)) :
    prettyMembers level l =
      l.map fun e => '"' :: e.1 ++ ['"', ':', ' '] ++ prettyChars level e.2 := by
  induction l with
  | nil => rfl
  | cons e l ih => rw [prettyMembers, ih, List.map_cons]

/-- Items with the same blanks behind each comma, and some in front of the bracket. -/
theorem spellsItems_join {print : Json → List Char} (hb : Blank b) (hb' : Blank b') (hl : l ≠ [])
    (h : ∀ v ∈ l, Spells v (print v)) :
    SpellsItems l (join (',' :: b) (l.map print) ++ b' ++ [']']) := by
  induction l with
  | nil => exact absurd rfl hl
  | cons v l ih =>
    have hv := h v List.mem_cons_self
    cases l with
    | nil => exact .last hv hb'
    | cons w l =>
      have hrest := ih (List.cons_ne_nil w l) fun w hw => h w (List.mem_cons_of_mem v hw)
      have hall := SpellsItems.more hv blank_nil hb hrest
      simpa [join] using hall

/-- Members with the same blanks behind each colon and each comma, and some in front of the brace. -/
theorem spellsMembers_join {print : Json → List Char} {b₀ : List Char} (hb₀ : Blank b₀)
    (hb : Blank b) (hb' : Blank b') (hl : members ≠ []) (hkey : ∀ e ∈ members, ∃ cs, e.1 = escape cs)
    (h : ∀ e ∈ members, Spells e.2 (print e.2)) :
    SpellsMembers members
      (join (',' :: b) (members.map fun e => '"' :: e.1 ++ '"' :: ':' :: b₀ ++ print e.2) ++ b' ++
        ['\x7d']) := by
  induction members with
  | nil => exact absurd rfl hl
  | cons e l ih =>
    obtain ⟨key, v⟩ := e
    have hv := h (key, v) List.mem_cons_self
    obtain ⟨cs, hcs⟩ := hkey (key, v) List.mem_cons_self
    obtain rfl : key = escape cs := hcs
    cases l with
    | nil =>
      have hall : SpellsMembers [(escape cs, v)] _ := .last hb₀ hv hb'
      simpa [join] using hall
    | cons w l =>
      have hrest := ih (List.cons_ne_nil w l) (fun w hw => hkey w (List.mem_cons_of_mem _ hw))
        fun w hw => h w (List.mem_cons_of_mem _ hw)
      have hall : SpellsMembers ((escape cs, v) :: w :: l) _ := .more hb₀ hv blank_nil hb hrest
      simpa [join] using hall

theorem spells_compactChars (h : v.Spelled) : Spells v (compactChars v) := by
  induction h with
  | null => exact .null
  | bool b =>
    cases b with
    | true => exact .yes
    | false => exact .no
  | number n => exact .number n
  | string cs => exact .string cs
  | @array l _ ih =>
    rw [compactChars, compactItems_eq]
    cases l with
    | nil => exact .emptyArray
    | cons v l =>
      have hitems := spellsItems_join blank_nil blank_nil (List.cons_ne_nil v l) ih
      simpa using Spells.array blank_nil hitems
  | @object l hkey _ ih =>
    rw [compactChars, compactMembers_eq]
    cases l with
    | nil => exact .emptyObject
    | cons e l =>
      have hmembers := spellsMembers_join blank_nil blank_nil blank_nil (List.cons_ne_nil e l) hkey ih
      simpa using Spells.object blank_nil hmembers

theorem spells_prettyChars (h : v.Spelled) (level : Nat) : Spells v (prettyChars level v) := by
  induction h generalizing level with
  | null => exact .null
  | bool b =>
    cases b with
    | true => exact .yes
    | false => exact .no
  | number n => exact .number n
  | string cs => exact .string cs
  | @array l _ ih =>
    rw [prettyChars, prettyItems_eq]
    cases l with
    | nil => exact .emptyArray
    | cons v l =>
      have hitems := spellsItems_join (blank_newLine (level + 1)) (blank_newLine level)
        (List.cons_ne_nil v l) fun v hv => ih v hv (level + 1)
      simpa [block] using Spells.array (blank_newLine (level + 1)) hitems
  | @object l hkey _ ih =>
    rw [prettyChars, prettyMembers_eq]
    cases l with
    | nil => exact .emptyObject
    | cons e l =>
      have hblank : Blank [' '] := fun c hc => List.mem_singleton.1 hc ▸ rfl
      have hmembers := spellsMembers_join hblank (blank_newLine (level + 1)) (blank_newLine level)
        (List.cons_ne_nil e l) hkey fun e he => ih e he (level + 1)
      simpa [block] using Spells.object (blank_newLine (level + 1)) hmembers

/-- What is printed in a row is read back. -/
theorem first?_compact (h : v.Spelled) : first? v.compact = some (v, true) :=
  first?_of_spells (spells_compactChars h)

/-- What is printed on lines is read back. -/
theorem parse?_pretty (h : v.Spelled) : parse? v.pretty = some v := by
  rw [parse?, pretty, first?_of_spells (spells_prettyChars h 0)]

end ProcessNet.Json
