/-
Numbers and strings as JSON spells them. A number is spelled by its decimal digits, with no zero in
front of others, a string by its characters, some of them escaped. A spelling stands for what it was
made from, and a reader that takes it off the front of a text stops right behind it.
-/
import ProcessNet.Format.Json.Document
import ProcessNet.Format.Json.Reader
import ProcessNet.Proofs.Text.Digits

namespace ProcessNet.Json

variable {n bits : Nat} {c : Char} {cs rest : List Char}

/-! ## Digits -/

theorem isDigit_of_mem_digits (h : c ∈ digits n) : c.isDigit :=
  Text.isDigit_of_mem_digits h

theorem digits_ne_nil : digits n ≠ [] := Nat.toDigits_ne_nil

/-- No zero stands in front of other digits. -/
theorem digits_ne_zero_cons (h : cs ≠ []) : digits n ≠ '0' :: cs := by
  induction n using Nat.strongRecOn generalizing cs with
  | ind n ih =>
    unfold digits
    by_cases hn : n < 10
    · rw [Nat.toDigits_of_lt_base hn]
      intro he
      exact h (List.cons.inj he).2.symm
    · rw [Nat.toDigits_of_base_le (by decide) (Nat.le_of_not_lt hn)]
      intro he
      have hdiv : n / 10 < n := Nat.div_lt_self (by omega) (by decide)
      cases hfront : Nat.toDigits 10 (n / 10) with
      | nil => exact Nat.toDigits_ne_nil hfront
      | cons d ds =>
        rw [hfront, List.cons_append, List.cons.injEq] at he
        obtain ⟨rfl, rfl⟩ := he
        by_cases hds : ds = []
        · -- a single zero in front would make `n` one of the first ten numbers
          subst hds
          have hzero := Nat.ofDigitChars_ten_toDigits (n := n / 10)
          rw [hfront] at hzero
          have : n / 10 = 0 := hzero.symm
          omega
        · exact ih (n / 10) hdiv hds hfront

theorem decimal?_digits (n : Nat) : decimal? (digits n) = some n := by
  have hofDigits : Text.ofDigits? 10 (digits n) = some n :=
    Text.ofDigits?_toDigits (by decide) (by decide) n
  unfold decimal?
  split
  · rename_i hnil
    exact absurd hnil digits_ne_nil
  · exact hofDigits

theorem toUnsigned?_ofNat (h : fits bits n) : toUnsigned? bits (ofNat n) = some n := by
  rw [toUnsigned?, ofNat, toNat?, decimal?_digits, Option.filter_some, if_pos h]

theorem key?_digits (h : fits bits n) : key? bits (digits n) = some n := by
  unfold key?
  split
  · rename_i hzero
    exact absurd hzero (digits_ne_zero_cons (List.cons_ne_nil _ _))
  · rw [decimal?_digits, Option.filter_some, if_pos h]

/-! ## Numbers in a text -/

/-- A text in front of which a number ends. -/
def EndsNumber (rest : List Char) : Prop :=
  ∀ c ∈ rest.head?, c.isDigit = false ∧ c ≠ '.' ∧ c ≠ 'e' ∧ c ≠ 'E'

theorem span_isDigit (h : ∀ c ∈ cs, c.isDigit) (hrest : EndsNumber rest) :
    (cs ++ rest).span Char.isDigit = (cs, rest) :=
  Text.span_append_rest h fun c hc => (hrest c hc).1

theorem wholePart?_digits (hrest : EndsNumber rest) :
    wholePart? (digits n ++ rest) = some (digits n, rest) := by
  have hrun : digitRun? (digits n ++ rest) = some (digits n, rest) := by
    rw [digitRun?, span_isDigit (fun c hc => isDigit_of_mem_digits hc) hrest]
    split
    · rename_i he
      exact absurd (congrArg Prod.fst he) digits_ne_nil
    · rfl
  rw [wholePart?, hrun]
  split
  · contradiction
  · rename_i he
    exact absurd (congrArg Prod.fst (Option.some.inj he)) (digits_ne_zero_cons (List.cons_ne_nil _ _))
  · rename_i he
    exact he.symm

theorem fraction?_of_endsNumber (hrest : EndsNumber rest) : fraction? rest = some ([], rest) := by
  unfold fraction?
  split
  · exact absurd rfl (hrest '.' rfl).2.1
  · rfl

theorem exponent?_of_endsNumber (hrest : EndsNumber rest) : exponent? rest = some ([], rest) := by
  cases rest with
  | nil => rfl
  | cons c rest =>
    obtain ⟨_, _, he, hE⟩ := hrest c rfl
    exact if_neg (not_or.2 ⟨he, hE⟩)

theorem number?_digits (hrest : EndsNumber rest) :
    number? (digits n ++ rest) = some (digits n, rest) := by
  have hsign : ∀ cs, digits n ++ rest ≠ '-' :: cs := by
    intro cs he
    cases hds : digits n with
    | nil => exact digits_ne_nil hds
    | cons d ds =>
      have hd : d.isDigit := isDigit_of_mem_digits (hds ▸ List.mem_cons_self)
      rw [hds, List.cons_append, List.cons.injEq] at he
      rw [he.1] at hd
      cases hd
  unfold number?
  split
  rename_i he
  split at he
  · rename_i hminus
    exact absurd hminus (hsign _)
  · cases he
    simp [wholePart?_digits hrest, fraction?_of_endsNumber hrest, exponent?_of_endsNumber hrest]

/-! ## Strings -/

/-- How a control character without a mark of its own is spelled. -/
theorem hexQuad?_of_lt (h : c.toNat < 0x20) :
    hexQuad? '0' '0' (hexDigit (c.toNat / 16)) (hexDigit (c.toNat % 16)) = some c.toNat := by
  have hall : ∀ m < 0x20, hexQuad? '0' '0' (hexDigit (m / 16)) (hexDigit (m % 16)) = some m := by
    decide
  exact hall c.toNat h

theorem unescape?_escapeChar (c : Char) (cs : List Char) :
    unescape? (escapeChar c ++ cs) = (unescape? cs).map (c :: ·) := by
  unfold escapeChar
  split
  any_goals rfl
  rename_i hquote hslash _ _ _ _ _
  split
  · rename_i hlt
    have hquad := hexQuad?_of_lt hlt
    have hhigh : isHighSurrogate c.toNat = false := by
      simp only [isHighSurrogate, Bool.and_eq_false_imp, decide_eq_true_eq, decide_eq_false_iff_not]
      omega
    have hlow : isLowSurrogate c.toNat = false := by
      simp only [isLowSurrogate, Bool.and_eq_false_imp, decide_eq_true_eq, decide_eq_false_iff_not]
      omega
    simp [unescape?, hquad, hhigh, hlow]
  · rw [List.singleton_append, unescape?, if_neg (not_or.2 ⟨hslash, hquote⟩)]
    · rintro _ _ _ _ _ rfl
      exact fun _ => hslash rfl
    · rintro _ _ rfl
      exact fun _ => hslash rfl

theorem stringRest?_escapeChar (c : Char) (cs : List Char) :
    stringRest? (escapeChar c ++ cs) =
      (stringRest? cs).map fun (s, rest) => (escapeChar c ++ s, rest) := by
  unfold escapeChar
  split
  any_goals rfl
  rename_i hquote hslash _ _ _ _ _
  split
  · rename_i hlt
    have hquad := hexQuad?_of_lt hlt
    simp [stringRest?, hquad]
  · rename_i hge
    rw [List.singleton_append, stringRest?, if_neg (not_or.2 ⟨hslash, hge⟩)]
    · rfl
    · exact hquote
    · rintro _ _ _ _ _ rfl
      exact fun _ => hslash rfl
    · rintro _ _ rfl
      exact fun _ => hslash rfl

/-- What is read off a spelling is the text that it was made from. -/
theorem unescape?_escape (cs : List Char) : unescape? (escape cs) = some cs := by
  induction cs with
  | nil => rfl
  | cons c cs ih => rw [escape, List.flatMap_cons, unescape?_escapeChar, ← escape, ih, Option.map_some]

theorem text?_escape (s : String) : text? (escape s.toList) = some s := by
  rw [text?, unescape?_escape, Option.map_some, String.ofList_toList]

/-- A string ends at its closing quote, and at none before. -/
theorem stringRest?_escape (cs rest : List Char) :
    stringRest? (escape cs ++ '"' :: rest) = some (escape cs, rest) := by
  induction cs with
  | nil => rfl
  | cons c cs ih =>
    rw [escape, List.flatMap_cons, List.append_assoc, stringRest?_escapeChar, ← escape, ih,
      Option.map_some]

/-- A digit stands for itself. -/
theorem escapeChar_of_isDigit (h : c.isDigit) : escapeChar c = [c] := by
  unfold escapeChar
  split
  any_goals cases h
  refine if_neg fun hlt => ?_
  simp only [Char.isDigit, Bool.and_eq_true, decide_eq_true_eq] at h
  have hle : '0'.toNat ≤ c.toNat := h.1
  have : '0'.toNat = 48 := rfl
  omega

theorem escape_digits (n : Nat) : escape (digits n) = digits n := by
  have hall : ∀ cs : List Char, (∀ c ∈ cs, c.isDigit) → escape cs = cs := by
    intro cs hcs
    induction cs with
    | nil => rfl
    | cons c cs ih =>
      rw [escape, List.flatMap_cons, escapeChar_of_isDigit (hcs c List.mem_cons_self), ← escape,
        ih fun d hd => hcs d (List.mem_cons_of_mem c hd)]
      rfl
  exact hall _ fun c hc => isDigit_of_mem_digits hc

end ProcessNet.Json
