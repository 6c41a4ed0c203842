/-
RON is a format: what its writer builds is read back from its printed text, and its reader finds in a value
what the value was built of, whatever is open around it.
-/
import ProcessNet.Format.Ron.Document
import ProcessNet.Proofs.Format.Ron.Reading

namespace ProcessNet.Ron

open DocumentReader DocumentWriter

variable {l : List (String × Ron)}

/-! ## Spelling -/

theorem spelled_record {name : Option (List Char)} (hname : ∀ n ∈ name, IsName n)
    (h : FitFields Spelled l) : (Ron.record name (l.map fun (n, v) => (n.toList, v))).Spelled := by
  obtain ⟨hkeys, hvalues⟩ := h
  simp only [areFieldNames, Bool.and_eq_true, Bool.not_eq_true', List.isEmpty_eq_false_iff,
    List.all_eq_true, List.forall_mem_map] at hkeys
  refine .record hname (by simpa using hkeys.1) ?_ ?_
  · exact List.forall_mem_map.2 fun e he => isName_toList (hkeys.2 e he)
  · exact List.forall_mem_map.2 hvalues

/-! ## Reading -/

namespace Part

variable {p : Part} {v : Ron}

/-- The part is the value, in a document that turns nothing on. -/
structure Holds (v : Ron) (p : Part) : Prop where
  value : p.value = v
  extensions : p.extensions = {}
  unwrapped : p.unwrapped = false

theorem Holds.inner (h : Holds v p) (levels : Nat) (w : Ron) : Holds w (p.inner levels w) :=
  ⟨rfl, h.extensions, rfl⟩

theorem Holds.toUnsigned? {bits n : Nat} (h : Holds (ofInt n) p) (hn : fits bits n) :
    p.toUnsigned? bits = some n := by
  simp [Part.toUnsigned?, h.value, ofInt, hn]

theorem Holds.toText? {s : String} (h : Holds (.text s.toList) p) : p.toText? = some s := by
  simp [Part.toText?, h.value]

/-- What is asked for by its name is found, and nothing else is there to be ignored. -/
theorem select?_names (p : Part) (hkeys : (l.map (·.1)).Nodup) :
    p.select? (l.map (·.1)) (l.map fun (n, v) => (n.toList, v)) =
      some ⟨true, l.map fun e => (e.1, p.inner 2 e.2)⟩ := by
  have hasked : ∀ e ∈ l.map fun e => (e.1, p.inner 2 e.2), (l.map (·.1)).contains e.1 := by
    simp only [List.forall_mem_map, List.contains_iff_mem]
    exact fun e he => List.mem_map_of_mem he
  have hnames : ((l.map fun e => (e.1, p.inner 2 e.2)).map (·.1)).Nodup := by
    simpa [Function.comp_def] using hkeys
  unfold select?
  simp only [List.map_map, Function.comp_def, String.ofList_toList]
  rw [if_pos (List.all_eq_true.2 fun e he => by simp only [hasked e he, Bool.true_or]),
    Fields.ofNamed?, List.filter_eq_self.2 hasked, if_pos hnames]

/-- A record is found with all of its fields. -/
theorem Holds.toFields? (h : Holds (ofFields l) p) (name : String) (hkeys : (l.map (·.1)).Nodup) :
    p.toFields? name (l.map (·.1)) = some ⟨true, l.map fun e => (e.1, p.inner 2 e.2)⟩ := by
  have hvalue := h.value
  have hbears : p.bearsName name none := by
    simp [bearsName, h.extensions]
  simp only [ofFields] at hvalue
  simp only [Part.toFields?, h.unwrapped, hvalue, hbears, if_true, select?_names p hkeys]

/-- A table is found with all of its entries. -/
theorem Holds.toEntries? {κ : Type} (key : κ → Ron) {decode : Part → Option κ} {l : List (κ × Ron)}
    (h : Holds (.table (l.map fun e => (key e.1, e.2))) p)
    (hdecode : ∀ e ∈ l, ∀ r, Holds (key e.1) r → decode r = some e.1) :
    p.toEntries? decode = some (l.map fun e => (e.1, p.inner 2 e.2)) := by
  rw [Part.toEntries?, h.value]
  refine Format.mapM_of_forall₂ ?_
  rw [List.forall₂_map_left_iff, List.forall₂_map_right_iff]
  exact List.forall₂_same.2 fun e he =>
    congrArg (Option.map (·, p.inner 2 e.2)) (hdecode e he _ (h.inner 2 (key e.1)))

/-- What stands inside a part that holds a list is found item by item. -/
theorem Holds.forall₂ {v : Ron} (h : Holds v p) (items : List Ron) :
    List.Forall₂ Holds items (items.map (p.inner 2)) := by
  rw [List.forall₂_map_right_iff]
  exact List.forall₂_same.2 fun w _ => h.inner 2 w

/-- What stands inside a part that holds named or numbered values is found under the same keys. -/
theorem Holds.forall₂_sameKey {κ : Type} {v : Ron} (h : Holds v p) (l : List (κ × Ron)) :
    List.Forall₂ (SameKey Holds) l (l.map fun e => (e.1, p.inner 2 e.2)) := by
  rw [List.forall₂_map_right_iff]
  exact List.forall₂_same.2 fun e _ => ⟨rfl, h.inner 2 e.2⟩

end Part

/-- A value is found as it was written, whatever levels are open around it. -/
def format : Format Ron Part where
  Fit := Spelled
  Reads := Part.Holds
  fit_text s := .text s.toList
  fit_nat _ h := .integer h
  fit_absent := .absent
  fit_present _ h := .present h
  fit_list _ h := .list h
  fit_pair _ _ ha hb := .group nofun (List.cons_ne_nil _ _) (by simp [ha, hb])
  fit_fields _ h := spelled_record nofun h
  fit_bare s h := .word (isName_toList h)
  fit_holding s w h hw :=
    .group (by simpa using isName_toList h) (List.cons_ne_nil _ _) (by simpa using hw)
  fit_holdingFields s _ h hl := spelled_record (by simpa using isName_toList h) hl
  fit_numbered l h := .table (List.forall_mem_map.2 fun e he => .integer (h e he).1)
    (List.forall_mem_map.2 fun e he => (h e he).2)
  fit_named l h := .table (List.forall_mem_map.2 fun e _ => .text e.1.toList)
    (List.forall_mem_map.2 h)
  reads_text s r h := h.toText?
  reads_nat bits n r h hn := h.toUnsigned? hn
  reads_absent r h := by
    change r.toOption? = _
    simp [Part.toOption?, show r.value = .absent from h.value]
  reads_present w r h _ := by
    refine ⟨{ r.inner 1 w with unwrapped := r.extensions.unwrapVariants }, ?_, rfl, h.extensions, ?_⟩
    · change r.toOption? = _
      simp [Part.toOption?, show r.value = .present w from h.value]
    · simp [h.extensions]
  text_ne_absent _ := nofun
  fields_ne_absent _ := nofun
  reads_list l r h := by
    refine ⟨l.map (r.inner 2), ?_, h.forall₂ l⟩
    change r.toList? = _
    simp [Part.toList?, show r.value = .list l from h.value]
  reads_pair a b r h := by
    refine ⟨r.inner 2 a, r.inner 2 b, ?_, h.inner 2 a, h.inner 2 b⟩
    change r.toPair? = _
    simp [Part.toPair?, show r.value = .group none [a, b] from h.value]
  reads_fields name l r h hkeys := ⟨_, h.toFields? name hkeys, h.forall₂_sameKey l⟩
  reads_bare s r h := by
    change r.toChoice? = _
    simp [Part.toChoice?, show r.value = .word s.toList from h.value]
  reads_holding s w r h := by
    refine ⟨r.inner 2 w, ?_, h.inner 2 w⟩
    change r.toChoice? = _
    simp [Part.toChoice?, show r.value = .group (some s.toList) [w] from h.value]
  reads_holdingFields s l r h := by
    refine ⟨r.inner 2 (ofFields l), ?_, h.inner 2 (ofFields l)⟩
    change r.toChoice? = _
    simp [Part.toChoice?, show r.value = .record (some s.toList) _ from h.value, ofFields]
  reads_numbered bits l r h hkeys := by
    refine ⟨_, ?_, h.forall₂_sameKey l⟩
    have htable : Part.Holds (.table (l.map fun e => (ofInt e.1, e.2))) r := h
    exact htable.toEntries? (fun n : Nat => ofInt n) fun e he r hr => hr.toUnsigned? (hkeys e he)
  reads_named l r h := by
    refine ⟨_, ?_, h.forall₂_sameKey l⟩
    have htable : Part.Holds (.table (l.map fun e => (.text e.1.toList, e.2))) r := h
    exact htable.toEntries? (fun s => .text s.toList) fun e _ r hr => hr.toText?

end ProcessNet.Ron
