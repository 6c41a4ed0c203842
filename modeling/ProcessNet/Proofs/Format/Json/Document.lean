/-
JSON is a format: what its writer builds is spelled in the way that the printers know, and its reader finds
in a value what the value was built of.
-/
import ProcessNet.Proofs.Format.Document
import ProcessNet.Proofs.Format.Json.Reading

namespace ProcessNet.Json

open DocumentReader DocumentWriter

/-! ## Spelling -/

theorem spelled_ofMembers {l : List (String × Json)} (h : ∀ e ∈ l, e.2.Spelled) :
    (ofMembers l).Spelled :=
  .object (List.forall_mem_map.2 fun e _ => ⟨e.1.toList, rfl⟩) (List.forall_mem_map.2 h)

theorem spelled_ofNumbered {l : List (Nat × Json)} (h : ∀ e ∈ l, e.2.Spelled) :
    (ofNumbered l : Json).Spelled :=
  .object (List.forall_mem_map.2 fun e _ => ⟨digits e.1, (escape_digits e.1).symm⟩)
    (List.forall_mem_map.2 h)

/-! ## Tables -/

theorem toMembers?_ofMembers (l : List (String × Json)) : (ofMembers l).toMembers? = some l := by
  rw [ofMembers, toMembers?]
  refine Format.mapM_of_forall₂ ?_
  rw [List.forall₂_map_right_iff]
  exact List.forall₂_same.2 fun e _ => by simp [text?_escape]

theorem toNumbered?_ofNumbered {bits : Nat} {l : List (Nat × Json)} (h : ∀ e ∈ l, fits bits e.1) :
    toNumbered? bits (ofNumbered l : Json) = some l := by
  change (l.map fun e => (digits e.1, e.2)).mapM _ = some l
  refine Format.mapM_of_forall₂ ?_
  rw [List.forall₂_map_right_iff]
  exact List.forall₂_same.2 fun e he => by simp [key?_digits (h e he)]

/-- A record is found with all of its fields. -/
theorem toFields?_ofFields {l : List (String × Json)} (h : (l.map (·.1)).Nodup) :
    toFields? (l.map (·.1)) (ofFields l) = some ⟨true, l⟩ := by
  have hknown : l.filter (fun e => (l.map (·.1)).contains e.1) = l :=
    List.filter_eq_self.2 fun e he => List.contains_iff_mem.2 (List.mem_map_of_mem he)
  change (ofMembers l).toMembers?.bind _ = _
  rw [toMembers?_ofMembers, Option.bind_some, Fields.ofNamed?]
  simp only [hknown, if_pos h]

/-! ## The format -/

/-- A value is found as it was written. -/
def format : Format Json Json where
  Fit := Spelled
  Reads w r := w = r
  fit_text s := .string s.toList
  fit_nat n _ := .number n
  fit_absent := .null
  fit_present _ h := h
  fit_list _ h := .array h
  fit_pair _ _ ha hb := .array (by simp [ha, hb])
  fit_fields _ h := spelled_ofMembers h.2
  fit_bare s _ := .string s.toList
  fit_holding _ _ _ h := spelled_ofMembers (by simpa using h)
  fit_holdingFields _ _ _ h :=
    spelled_ofMembers (by simpa using spelled_ofMembers h.2)
  fit_numbered _ h := spelled_ofNumbered fun e he => (h e he).2
  fit_named _ := spelled_ofMembers
  reads_text s _ h := h ▸ text?_escape s
  reads_nat _ _ _ h hn := h ▸ toUnsigned?_ofNat hn
  reads_absent _ h := h ▸ rfl
  reads_present w r h hne := by
    cases h
    refine ⟨w, ?_, rfl⟩
    cases w with
    | null => exact absurd rfl hne
    | _ => rfl
  text_ne_absent _ := nofun
  fields_ne_absent _ := nofun
  reads_list l _ h := ⟨l, h ▸ rfl, List.forall₂_same.2 fun _ _ => rfl⟩
  reads_pair a b _ h := ⟨a, b, h ▸ rfl, rfl, rfl⟩
  reads_fields _ l _ h hkeys :=
    ⟨⟨true, l⟩, h ▸ toFields?_ofFields hkeys, List.forall₂_same.2 fun _ _ => ⟨rfl, rfl⟩⟩
  reads_bare s _ h := by
    cases h
    change (text? (escape s.toList)).map _ = _
    rw [text?_escape, Option.map_some]
  reads_holding s w _ h := by
    cases h
    refine ⟨w, ?_, rfl⟩
    change (text? (escape s.toList)).map _ = _
    rw [text?_escape, Option.map_some]
  reads_holdingFields s l _ h := by
    cases h
    refine ⟨ofFields l, ?_, rfl⟩
    change (text? (escape s.toList)).map _ = _
    rw [text?_escape, Option.map_some]
    rfl
  reads_numbered _ l _ h hkeys :=
    ⟨l, h ▸ toNumbered?_ofNumbered hkeys, List.forall₂_same.2 fun _ _ => ⟨rfl, rfl⟩⟩
  reads_named l _ h := ⟨l, h ▸ toMembers?_ofMembers l, List.forall₂_same.2 fun _ _ => ⟨rfl, rfl⟩⟩

end ProcessNet.Json
