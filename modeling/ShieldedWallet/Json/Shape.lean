/-!
# The shape of an expected value

How far an array is read depends on what is expected of it. Who expects a byte string has all of an
array once the bytes are complete, and passes over what may follow. So the reader of a text is told
the shape of the value: where a byte string may stand, and where a record with such parts.
-/

namespace ShieldedWallet.Json

/-- What is expected of a value. -/
inductive Shape where
  /-- Nothing in particular. -/
  | any
  /-- A byte string, of which `count` bytes are still to come. -/
  | bytes (count : Nat)
  /-- A record with the fields that are still to come, each with its name. -/
  | record (fields : List (String × Shape))

namespace Shape

/-- What is expected of the next item of an array. -/
def item : Shape → Shape
  | .record (f :: _) => f.2
  | .any | .bytes _ | .record [] => .any

/-- What is expected of an array behind its next item. -/
def rest : Shape → Shape
  | .bytes (n + 1) => .bytes n
  | .record (_ :: fs) => .record fs
  | .any | .bytes 0 | .record [] => .any

/-- What is expected of the member of an object with the given key. -/
def member (key : Option (List Char)) : Shape → Shape
  | .record fs => ((fs.find? fun f => key = some f.1.toList).map (·.2)).getD .any
  | .any | .bytes _ => .any

end Shape

end ShieldedWallet.Json
