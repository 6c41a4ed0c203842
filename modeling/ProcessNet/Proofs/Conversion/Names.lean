/-
Names that can be taken apart again. A generated name is read from its end: as long as its last two parts
neither hold the separator nor begin with a character of it, the name tells these parts, and it tells what
stands in front of them. Whatever else goes into a name may be any text.
-/
import Mathlib.Data.List.Infix
import ProcessNet.Conversion.Basic
import ProcessNet.Proofs.Text.Digits

namespace ProcessNet.Construction

/-! ## Texts that can be parts -/

def separator : List Char := ['@', '@', '@']

theorem eq_of_mem_separator {a : Char} (h : a ∈ separator) : a = '@' := by
  simpa [separator] using h

/-- The text neither holds the separator nor begins with a character of it. -/
structure Separable (s : String) : Prop where
  unseparated : ¬ separator <:+: s.toList
  start : s.toList.head? ≠ some '@'

instance (s : String) : Decidable (Separable s) :=
  decidable_of_iff (¬ separator <:+: s.toList ∧ s.toList.head? ≠ some '@')
    ⟨fun ⟨h, h'⟩ => ⟨h, h'⟩, fun ⟨h, h'⟩ => ⟨h, h'⟩⟩

section Chars

variable {xs ys as : List Char}

theorem infix_of_append_left (hxs : '@' ∉ xs) (h : separator <:+: xs ++ ys) : separator <:+: ys := by
  rcases List.infix_append_iff.1 h with h | h | ⟨l₁, l₂, he, h₁, h₂⟩
  · exact absurd (h.subset List.mem_cons_self) hxs
  · exact h
  · cases l₁ with
    | nil =>
      rw [List.nil_append] at he
      exact he ▸ h₂.isInfix
    | cons a l₁ =>
      obtain rfl := eq_of_mem_separator (he ▸ List.mem_append_left l₂ List.mem_cons_self)
      exact absurd (h₁.subset List.mem_cons_self) hxs

theorem infix_of_append_right (hys : '@' ∉ ys) (h : separator <:+: xs ++ ys) : separator <:+: xs := by
  rcases List.infix_append_iff.1 h with h | h | ⟨l₁, l₂, he, h₁, h₂⟩
  · exact h
  · exact absurd (h.subset List.mem_cons_self) hys
  · cases l₂ with
    | nil =>
      rw [List.append_nil] at he
      exact he ▸ h₁.isInfix
    | cons a l₂ =>
      obtain rfl := eq_of_mem_separator (he ▸ List.mem_append_right l₁ List.mem_cons_self)
      exact absurd (h₂.subset List.mem_cons_self) hys

/-- What stands between two separators, of which the first may reach into it, is no part of a name. -/
theorem reaches_into (hne : as ≠ []) (h : ys ++ separator = xs ++ separator ++ as) :
    as.head? = some '@' ∨ separator <:+: as := by
  rcases List.append_eq_append_iff.1 h with ⟨bs, -, he⟩ | ⟨bs, -, rfl⟩
  · cases as with
    | nil => exact absurd rfl hne
    | cons a as =>
      obtain rfl := eq_of_mem_separator (he ▸ List.mem_append_right bs List.mem_cons_self)
      exact .inl rfl
  · exact .inr (List.suffix_append bs separator).isInfix

end Chars

variable {s s' t t' : String}

theorem separable_of_not_mem (h : '@' ∉ s.toList) : Separable s :=
  ⟨fun hsegment => h (hsegment.subset List.mem_cons_self), fun hhead => h (List.mem_of_head? hhead)⟩

theorem Separable.append (hs : Separable s) (ht : '@' ∉ t.toList) : Separable (s ++ t) := by
  obtain ⟨hsep, hstart⟩ := hs
  constructor
  · rw [String.toList_append]
    exact fun h => hsep (infix_of_append_right ht h)
  · rw [String.toList_append]
    cases hs : s.toList with
    | nil => exact fun h => ht (List.mem_of_head? h)
    | cons a l => simpa [hs] using hstart

theorem Separable.prepend (hs : Separable s) (ht : '@' ∉ t.toList) : Separable (t ++ s) := by
  obtain ⟨hsep, hstart⟩ := hs
  constructor
  · rw [String.toList_append]
    exact fun h => hsep (infix_of_append_left ht h)
  · rw [String.toList_append]
    cases ht' : t.toList with
    | nil => exact hstart
    | cons a l =>
      rw [ht'] at ht
      simp only [List.cons_append, List.head?_cons, ne_eq, Option.some.injEq]
      rintro rfl
      exact ht List.mem_cons_self

/-! ## Parts of a name -/

/-- The rest of a text behind a separator is told by the text, and so is what stands in front of it. -/
theorem append_separator_inj (hs : Separable s) (hs' : Separable s') (h : t ++ "@@@" ++ s = t' ++ "@@@" ++ s') :
    t = t' ∧ s = s' := by
  have hlist : t.toList ++ separator ++ s.toList = t'.toList ++ separator ++ s'.toList := by
    simpa [separator, String.toList_append] using congrArg String.toList h
  -- The longer one of both rests would have to hold a part of the other separator.
  have hnone : ∀ {xs ys as : List Char} {u v : String}, Separable u → u.toList = as ++ v.toList →
      ys ++ separator = xs ++ separator ++ as → as = [] := by
    intro xs ys as u v hu he h
    by_contra hne
    rcases reaches_into hne h with hhead | hsegment
    · refine hu.start ?_
      rw [he, List.head?_append, hhead, Option.some_or]
    · apply hu.unseparated
      rw [he]
      exact hsegment.trans (List.prefix_append as v.toList).isInfix
  rcases List.append_eq_append_iff.1 hlist with ⟨as, hfront, hback⟩ | ⟨as, hfront, hback⟩
  · obtain rfl := hnone hs hback hfront
    rw [List.append_nil, List.append_cancel_right_eq] at hfront
    exact ⟨String.toList_injective hfront.symm, String.toList_injective hback⟩
  · obtain rfl := hnone hs' hback hfront
    rw [List.append_nil, List.append_cancel_right_eq] at hfront
    exact ⟨String.toList_injective hfront, String.toList_injective hback.symm⟩

variable {front front' : List String}

theorem joinName_append (hfront : front ≠ []) (s : String) :
    joinName (front ++ [s]) = joinName front ++ "@@@" ++ s := by
  induction front with
  | nil => exact absurd rfl hfront
  | cons a front ih =>
    cases front with
    | nil => simp [joinName, String.intercalate_cons_cons]
    | cons b front =>
      have hrest := ih (List.cons_ne_nil b front)
      simp only [joinName, List.cons_append, String.intercalate_cons_cons] at hrest ⊢
      rw [hrest]
      simp only [String.append_assoc]

theorem joinName_singleton (s : String) : joinName [s] = s := by
  simp [joinName]

theorem joinName_append_pair (front : List String) (s t : String) :
    joinName (front ++ [s, t]) = joinName (front ++ [s]) ++ "@@@" ++ t := by
  rw [← joinName_append (by simp)]
  simp

/-- A part holds no separator, so it is no name that has several parts. -/
theorem Separable.ne_joinName (hs : Separable s) (hfront : front ≠ []) :
    s ≠ joinName (front ++ [t]) := by
  rintro rfl
  apply hs.unseparated
  rw [joinName_append hfront]
  simp only [String.toList_append]
  exact ⟨_, _, rfl⟩

/-- The last two parts of a name are told by the name, and so is what stands in front of them. -/
theorem joinName_inj (hs : Separable s) (hs' : Separable s') (ht : Separable t) (ht' : Separable t')
    (h : joinName (front ++ [s, t]) = joinName (front' ++ [s', t'])) :
    s = s' ∧ t = t' ∧ (front = [] ↔ front' = []) ∧ joinName front = joinName front' := by
  rw [joinName_append_pair, joinName_append_pair] at h
  obtain ⟨hfronts, rfl⟩ := append_separator_inj ht ht' h
  by_cases hfront : front = []
  · subst hfront
    by_cases hfront' : front' = []
    · subst hfront'
      exact ⟨by simpa [joinName_singleton] using hfronts, rfl, Iff.rfl, rfl⟩
    · rw [List.nil_append, joinName_singleton] at hfronts
      exact absurd hfronts (hs.ne_joinName hfront')
  · by_cases hfront' : front' = []
    · subst hfront'
      rw [List.nil_append, joinName_singleton] at hfronts
      exact absurd hfronts.symm (hs'.ne_joinName hfront)
    · rw [joinName_append hfront, joinName_append hfront'] at hfronts
      obtain ⟨he, rfl⟩ := append_separator_inj hs hs' hfronts
      exact ⟨rfl, rfl, iff_of_false hfront hfront', he⟩

/-! ## Numbers behind a part -/

/-- A part with a number behind it. -/
def numbered (id : String) (k : Nat) : String := s!"{id}#{k}"

theorem toList_numbered (id : String) (k : Nat) :
    (numbered id k).toList = id.toList ++ '#' :: Nat.toDigits 10 k := by
  change (id ++ "#" ++ k.repr).toList = _
  simp [Nat.repr_eq_ofList_toDigits]

theorem notMem_digits {c : Char} {k : Nat} (hc : c.isDigit = false) : c ∉ Nat.toDigits 10 k := by
  intro h
  rw [Nat.isDigit_of_mem_toDigits (by decide) (by decide) h] at hc
  cases hc

theorem numbered_inj {id id' : String} {k k' : Nat} (h : numbered id k = numbered id' k') :
    id = id' ∧ k = k' := by
  have hlist := congrArg String.toList h
  rw [toList_numbered, toList_numbered] at hlist
  have hdigits : ∀ {k : Nat}, '#' ∉ Nat.toDigits 10 k := notMem_digits (by decide)
  -- The number sign that comes last is the one in front of the number.
  have hnone : ∀ {as l l' : List Char}, '#' ∉ l → '#' :: l = as ++ '#' :: l' → as = [] := by
    intro as l l' hl he
    cases as with
    | nil => rfl
    | cons a as =>
      obtain ⟨-, he⟩ := List.cons.inj he
      exact absurd (he ▸ List.mem_append_right as List.mem_cons_self) hl
  have hback : ∀ {k k' : Nat}, Nat.toDigits 10 k = Nat.toDigits 10 k' → k = k' := by
    intro k k' he
    have hread := Text.ofDigits?_toDigits (by omega : 1 < 10) (by omega) k
    rw [he, Text.ofDigits?_toDigits (by omega) (by omega)] at hread
    exact (Option.some.inj hread).symm
  rcases List.append_eq_append_iff.1 hlist with ⟨as, hfront, he⟩ | ⟨as, hfront, he⟩
  · obtain rfl := hnone hdigits he
    exact ⟨String.toList_injective (by simpa using hfront.symm), hback (by simpa using he)⟩
  · obtain rfl := hnone hdigits he
    exact ⟨String.toList_injective (by simpa using hfront), hback (by simpa using he.symm)⟩

theorem ne_numbered {s : String} (hs : '#' ∉ s.toList) (id : String) (k : Nat) : s ≠ numbered id k := by
  rintro rfl
  rw [toList_numbered] at hs
  exact hs (List.mem_append_right _ List.mem_cons_self)

theorem Separable.numbered {id : String} (h : Separable id) (k : Nat) : Separable (numbered id k) := by
  have hnumber : '@' ∉ ("#" ++ k.repr).toList := by
    rw [String.toList_append, Nat.repr_eq_ofList_toDigits]
    intro h
    rcases List.mem_append.1 h with h | h
    · revert h
      decide
    · exact notMem_digits (c := '@') (by decide) (by simpa using h)
  have he : Construction.numbered id k = id ++ ("#" ++ k.repr) := by
    apply String.toList_injective
    simp [toList_numbered, Nat.repr_eq_ofList_toDigits]
  rw [he]
  exact h.append hnumber

end ProcessNet.Construction
