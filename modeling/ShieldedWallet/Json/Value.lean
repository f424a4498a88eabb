/-!
# JSON values

A JSON value as the text gives it: members keep their order and their repetitions, numbers keep
their literal, and a string keeps whether its escapes make up a text at all. A surrogate escape
without its partner is well-formed JSON that denotes no text; such strings may only stand where
nobody reads them.
-/

namespace ShieldedWallet

inductive Json where
  | null
  | bool (b : Bool)
  /-- A number, given by its literal. -/
  | number (literal : List Char)
  /-- A string, without a text if a surrogate escape in it lacks its partner. -/
  | string (text : Option (List Char))
  | array (items : List Json)
  | object (members : List (Option (List Char) × Json))

namespace Json

/-- The JSON string with the text `s`. -/
def text (s : String) : Json := .string (some s.toList)

def nat (n : Nat) : Json := .number (Nat.toDigits 10 n)

/-- The JSON object with the members `ms`. -/
def record (ms : List (String × Json)) : Json :=
  .object (ms.map fun m => (some m.1.toList, m.2))

def text? : Json → Option String
  | .string (some cs) => some (String.ofList cs)
  | _ => none

@[simp] theorem text?_text (s : String) : (text s).text? = some s := by simp [text, text?]

end Json

end ShieldedWallet
