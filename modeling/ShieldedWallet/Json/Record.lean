import ShieldedWallet.Json.Codec

/-!
# Records in JSON

A record is described by its fields, and one reader and one writer serve every record. It is written
as an object with the members in the order of the fields. It is read from an object whose members
come in any order, each at most once, or from an array of the values in the order of the fields.
-/

namespace ShieldedWallet

structure Field where
  /-- What the field holds. -/
  Value : Type
  /-- The key of the member. -/
  name : String
  /-- How a value stands in JSON. -/
  codec : Codec Value
  /-- The value of the field in an object without the member, if the member may be missing. -/
  ifMissing : Option Value := none
  /-- The value of the field in an array that ends before it, if the array may end there. -/
  ifCut : Option Value := none
  /-- The values for which no member is written. -/
  isHidden : Value → Bool := fun _ => false

namespace Field

/-- One value for each field. -/
@[reducible]
def Values : List Field → Type
  | [] => Unit
  | f :: fs => f.Value × Values fs

/-- The members of an object, field by field. -/
def members : (fs : List Field) → Values fs → List (String × Json)
  | [], _ => []
  | f :: fs, (v, vs) =>
    if f.isHidden v then members fs vs else (f.name, f.codec.write v) :: members fs vs

/-- The value of a field in an object with the members `ms`. -/
def readMember? (f : Field) (ms : List (Option (List Char) × Json)) : Option f.Value :=
  match ms.filter (fun m => m.1 = some f.name.toList) with
  | [] => f.ifMissing
  | [m] => f.codec.read? m.2
  | _ => none

/-- The values of all fields in an object with the members `ms`. -/
def readMembers? : (fs : List Field) → List (Option (List Char) × Json) → Option (Values fs)
  | [], _ => some ()
  | f :: fs, ms => do
    let v ← f.readMember? ms
    let vs ← readMembers? fs ms
    return (v, vs)

/-- The values of all fields in an array of the items `js`. -/
def readItems? : (fs : List Field) → List Json → Option (Values fs)
  | [], [] => some ()
  | [], _ :: _ => none
  | f :: fs, [] => do
    let v ← f.ifCut
    let vs ← readItems? fs []
    return (v, vs)
  | f :: fs, j :: js => do
    let v ← f.codec.read? j
    let vs ← readItems? fs js
    return (v, vs)

end Field

/-- How a type of records stands in JSON. -/
structure RecordFormat (α : Type) where
  /-- The fields in their order. -/
  fields : List Field
  /-- Whether members that belong to no field are refused. Otherwise they are skipped. -/
  closed : Bool
  /-- The values of a record. -/
  toValues : α → Field.Values fields
  /-- The record with the given values. -/
  ofValues : Field.Values fields → α

namespace RecordFormat

variable {α : Type}

/-- Whether `key` may be the key of a member. -/
def admits (r : RecordFormat α) : Option (List Char) → Bool
  | none => false
  | some key => !r.closed || r.fields.any fun f => f.name.toList = key

def codec (r : RecordFormat α) : Codec α where
  write a := .record (Field.members r.fields (r.toValues a))
  read?
    | .object ms =>
      if ms.all fun m => r.admits m.1 then (Field.readMembers? r.fields ms).map r.ofValues
      else none
    | .array js => (Field.readItems? r.fields js).map r.ofValues
    | _ => none
  shape := .record (r.fields.map fun f => (f.name, f.codec.shape))

end RecordFormat

end ShieldedWallet
