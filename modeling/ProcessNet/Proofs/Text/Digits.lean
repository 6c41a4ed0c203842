/-
Runs of characters at the front of a text, and digits that are read back: in every base of at most sixteen,
the digits of a number spell that number.
-/
import Mathlib.Data.List.TakeDrop
import ProcessNet.Text.CodePoint

namespace ProcessNet.Text

variable {base n d : Nat} {c : Char} {cs rest : List Char}

/-! ## Runs -/

theorem takeWhile_append_rest {p : Char → Bool} (h : ∀ c ∈ cs, p c)
    (hrest : ∀ c ∈ rest.head?, p c = false) : (cs ++ rest).takeWhile p = cs := by
  rw [List.takeWhile_append_of_pos h]
  cases rest with
  | nil => simp
  | cons c rest => simp [hrest c rfl]

theorem span_append_rest {p : Char → Bool} (h : ∀ c ∈ cs, p c)
    (hrest : ∀ c ∈ rest.head?, p c = false) : (cs ++ rest).span p = (cs, rest) := by
  rw [List.span_eq_takeWhile_dropWhile, takeWhile_append_rest h hrest,
    List.dropWhile_append_of_pos h]
  cases rest with
  | nil => rfl
  | cons c rest => rw [List.dropWhile_cons_of_neg (by simp [hrest c rfl])]

/-! ## Digits -/

theorem digitIn?_digitChar (hbase : base ≤ 16) (hd : d < base) :
    digitIn? base (Nat.digitChar d) = some d := by
  have hall : ∀ d < 16, digit? (Nat.digitChar d) = some d := by decide
  rw [digitIn?, hall d (Nat.lt_of_lt_of_le hd hbase), Option.filter_some, if_pos (decide_eq_true hd)]

theorem isDigit_of_mem_digits (h : c ∈ Nat.toDigits 10 n) : c.isDigit :=
  Nat.isDigit_of_mem_toDigits (by decide) (by decide) h

theorem exists_digitChar (hbase : 1 < base) (h : c ∈ Nat.toDigits base n) :
    ∃ d < base, c = Nat.digitChar d := by
  induction n using Nat.strongRecOn with
  | ind n ih =>
    by_cases hn : n < base
    · rw [Nat.toDigits_of_lt_base hn] at h
      exact ⟨n, hn, List.mem_singleton.1 h⟩
    · have hle := Nat.le_of_not_lt hn
      rw [Nat.toDigits_of_base_le hbase hle, List.mem_append] at h
      rcases h with h | h
      · exact ih (n / base) (Nat.div_lt_self (by omega) hbase) h
      · exact ⟨n % base, Nat.mod_lt n (by omega), List.mem_singleton.1 h⟩

theorem ofDigits?_toDigits (hbase : 1 < base) (hle : base ≤ 16) (n : Nat) :
    ofDigits? base (Nat.toDigits base n) = some n := by
  induction n using Nat.strongRecOn with
  | ind n ih =>
    by_cases hn : n < base
    · simp [Nat.toDigits_of_lt_base hn, ofDigits?, digitIn?_digitChar hle hn]
    · have hfront := ih (n / base) (Nat.div_lt_self (by omega) hbase)
      have hlast := digitIn?_digitChar hle (Nat.mod_lt n (by omega))
      rw [ofDigits?] at hfront
      rw [Nat.toDigits_of_base_le hbase (Nat.le_of_not_lt hn), ofDigits?, List.foldlM_append, hfront]
      simp [hlast, Nat.div_add_mod]

end ProcessNet.Text
