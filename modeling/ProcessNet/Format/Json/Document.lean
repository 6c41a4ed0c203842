/-
JSON as a document format. Records are objects, or arrays in the order of the fields; an
alternative with a value is an object of one member; an absent value is `null`; tables with
numbers as keys spell them as plain digits.
-/
import ProcessNet.Format.Document
import ProcessNet.Format.Json.Basic

namespace ProcessNet.Json

instance : DocumentWriter Json where
  ofBool := .bool
  ofNat := ofNat
  ofText := ofText
  absent := .null
  present v := v
  ofList := .array
  ofPair a b := .array [a, b]
  ofFields := ofMembers
  bare := ofText
  holding name v := ofMembers [(name, v)]
  holdingFields name fields := ofMembers [(name, ofMembers fields)]
  ofNumbered l := .object (l.map fun (n, v) => (digits n, v))
  ofNamed := ofMembers

def toUnsigned? (bits : Nat) (v : Json) : Option Nat := v.toNat?.filter (fits bits)

/-- A number as a key: plain digits, no zero in front. -/
def key? (bits : Nat) : List Char → Option Nat
  | '0' :: _ :: _ => none
  | cs => (decimal? cs).filter (fits bits)

def toChoice? : Json → Option (Choice Json)
  | .string cs => (text? cs).map .bare
  | .object [(key, v)] => (text? key).map (.holding · v)
  | _ => none

def toFields? (fields : List String) : Json → Option (Fields Json)
  | .array items => Fields.ofOrdered? fields items
  | v => v.toMembers?.bind (Fields.ofNamed? fields)

instance : DocumentReader Json where
  toBool? := toBool?
  toUnsigned? := toUnsigned?
  toText? := toText?
  toOption?
    | .null => some none
    | v => some (some v)
  toList? := toList?
  toPair?
    | .array [a, b] => some (a, b)
    | _ => none
  toFields? _ := toFields?
  toChoice? := toChoice?
  isEmpty
    | .null => true
    | _ => false
  toNumbered? bits
    | .object members => members.mapM fun (key, v) => (key? bits key).map (·, v)
    | _ => none
  toNamed? := toMembers?

end ProcessNet.Json
