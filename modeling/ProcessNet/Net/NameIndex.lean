/-
Name indices: which node bears a name, in the order in which the names came.
-/

namespace ProcessNet

/-- A table from names to nodes, each name at most once. -/
structure NameIndex (ι : Type) where
  entries : List (String × ι) := []
deriving DecidableEq, Repr

namespace NameIndex

variable {ι : Type}

instance : Inhabited (NameIndex ι) := ⟨{}⟩

def size (x : NameIndex ι) : Nat := x.entries.length

def find? (x : NameIndex ι) (name : String) : Option ι := x.entries.lookup name

def contains (x : NameIndex ι) (name : String) : Bool := (x.find? name).isSome

/-- The entries with the one of a name renewed, or with a new one behind them. -/
def insertEntry (name : String) (i : ι) : List (String × ι) → List (String × ι)
  | [] => [(name, i)]
  | (n, j) :: l => if n = name then (name, i) :: l else (n, j) :: insertEntry name i l

/-- Gives a name its node, in the place of an older entry of that name if there is one. -/
def insert (x : NameIndex ι) (name : String) (i : ι) : NameIndex ι :=
  ⟨insertEntry name i x.entries⟩

def erase (x : NameIndex ι) (name : String) : NameIndex ι :=
  ⟨x.entries.eraseP (·.1 = name)⟩

/-- The index with the given entries; of entries of one name the last one counts. -/
def ofList (l : List (String × ι)) : NameIndex ι :=
  l.foldl (fun x (name, i) => x.insert name i) {}

/-! ## What each operation does to a look-up -/

theorem lookup_cons {name n : String} {i : ι} {l : List (String × ι)} :
    ((n, i) :: l).lookup name = if name = n then some i else l.lookup name := by
  by_cases h : name = n
  · simp [h]
  · rw [List.lookup_cons, beq_false_of_ne h, if_neg h]

theorem lookup_insertEntry {name n : String} {i : ι} {l : List (String × ι)} :
    (insertEntry name i l).lookup n = if n = name then some i else l.lookup n := by
  induction l with
  | nil => rw [insertEntry, lookup_cons]
  | cons e l ih =>
    obtain ⟨m, j⟩ := e
    simp only [insertEntry]
    split
    · rename_i h
      subst h
      simp only [lookup_cons]
      split <;> rfl
    · rename_i h
      simp only [lookup_cons, ih]
      by_cases hn : n = m
      · simp [hn, h]
      · simp [hn]

theorem find?_insert {x : NameIndex ι} {name n : String} {i : ι} :
    (x.insert name i).find? n = if n = name then some i else x.find? n :=
  lookup_insertEntry

theorem find?_erase_of_ne {x : NameIndex ι} {name n : String} (h : n ≠ name) :
    (x.erase name).find? n = x.find? n := by
  unfold erase find?
  induction x.entries with
  | nil => rfl
  | cons e l ih =>
    obtain ⟨m, j⟩ := e
    by_cases hm : m = name
    · subst hm
      simp [lookup_cons, h]
    · simp [hm, lookup_cons, ih]

theorem find?_erase {x : NameIndex ι} {name : String} (h : (x.entries.map (·.1)).Nodup) :
    (x.erase name).find? name = none := by
  unfold erase find?
  induction hx : x.entries generalizing x with
  | nil => rfl
  | cons e l ih =>
    obtain ⟨m, j⟩ := e
    rw [hx, List.map_cons, List.nodup_cons] at h
    by_cases hm : m = name
    · subst hm
      have : l.lookup m = none := by
        rw [List.lookup_eq_none_iff]
        exact fun d hd => bne_iff_ne.2 fun he => h.1 (List.mem_map.2 ⟨d, hd, he.symm⟩)
      simpa using this
    · have := ih (x := ⟨l⟩) h.2 rfl
      simp [hm, lookup_cons, Ne.symm hm, this]

/-- Names stay apart when one is added. -/
theorem nodup_insert {x : NameIndex ι} {name : String} {i : ι}
    (h : (x.entries.map (·.1)).Nodup) : ((x.insert name i).entries.map (·.1)).Nodup := by
  have key : ∀ l : List (String × ι), ∀ n, n ∈ (insertEntry name i l).map (·.1) →
      n = name ∨ n ∈ l.map (·.1) := by
    intro l n
    induction l with
    | nil => simp [insertEntry]
    | cons e l ih =>
      simp only [insertEntry]
      split
      · simp_all
      · simp only [List.map_cons, List.mem_cons]
        rintro (rfl | hn)
        · exact .inr (.inl rfl)
        · exact (ih hn).imp_right .inr
  unfold insert
  induction hx : x.entries generalizing x with
  | nil => simp [insertEntry]
  | cons e l ih =>
    obtain ⟨m, j⟩ := e
    rw [hx, List.map_cons, List.nodup_cons] at h
    simp only [insertEntry]
    split
    · rename_i hm
      exact hm ▸ List.nodup_cons.2 h
    · rename_i hm
      refine List.nodup_cons.2 ⟨fun hn => ?_, ih (x := ⟨l⟩) h.2 rfl⟩
      rcases key l m hn with rfl | hn
      · exact hm rfl
      · exact h.1 hn

end NameIndex

end ProcessNet
