/-
TOML as a document format, for reading only: records are tables, or arrays in the order of the
fields, of which further items do not count; an optional value that is there stands as it is.
Numbers are judged when they are asked for, or when the entry around them is found unknown.
-/
import ProcessNet.Format.Document
import ProcessNet.Format.Toml.Basic

namespace ProcessNet.Toml

/-- The fields of a record. A moment has parts that no record asks for. -/
def toFields? (fields : List String) : Toml → Option (Fields Toml)
  | .table _ entries =>
    if entries.all fun (key, v) => fields.contains key || v.isStorable then
      Fields.ofNamed? fields entries
    else none
  | .moment _ => some ⟨true, []⟩
  | .array items | .tables items => some ⟨false, fields.zip items⟩
  | _ => none

def toChoice? : Toml → Option (Choice Toml)
  | .text s => some (.bare s)
  | .table _ [(key, v)] => some (.holding key v)
  | _ => none

instance : DocumentReader Toml where
  toBool?
    | .bool b => some b
    | _ => none
  toUnsigned? bits
    | .integer (.ofNat n) => if fits bits n then some n else none
    | _ => none
  toText?
    | .text s => some s
    | _ => none
  toOption? v := some (some v)
  toList?
    | .array items | .tables items => some items
    | _ => none
  toPair?
    | .array [a, b] => some (a, b)
    | _ => none
  toFields? _ := toFields?
  toChoice? := toChoice?
  isEmpty
    | .table _ [] => true
    | _ => false
  toNumbered? _ _ := none
  toNamed?
    | .table _ entries => some entries
    | _ => none

end ProcessNet.Toml
