import ShieldedWallet.Json.Printer
import ShieldedWallet.Json.Reader
import ShieldedWallet.Json.Record

/-!
# JSON documents

A document is the text of one value, in the compact form when it is written.
-/

namespace ShieldedWallet.Codec

variable {α : Type}

/-- The document of a value. -/
def print (c : Codec α) (a : α) : String := (c.write a).render

/-- The value of a document. -/
def parse? (c : Codec α) (s : String) : Option α := (Json.parse? c.shape s).bind c.read?

end ShieldedWallet.Codec
