import ShieldedWallet.Json.Document
import ShieldedWallet.Proofs.Json.Expecting

/-!
# Reading printed JSON

The printed form of a value is one of the texts that denote it (`Fits.denotes`), provided that the value
can be printed at all: its numbers have to be numbers and its strings have to have a text. If the value
also fits the shape that is expected, nothing of it is dropped (`Fits.taken`). So every such value is read
back from its text.
-/

namespace ShieldedWallet.Json

/-! ## Values that can be read back -/

mutual

/-- Whether a value can be printed and read back where `shape` is expected: its numbers are numbers,
its strings have a text, and no array goes on behind the last byte of a byte string. -/
def Fits : Shape → Json → Prop
  | _, .null => True
  | _, .bool _ => True
  | _, .number cs => IsLiteral cs
  | _, .string s => s.isSome
  | shape, .array vs => FitsItems shape vs
  | shape, .object ms => FitsMembers shape ms

@[inherit_doc Fits]
def FitsItems : Shape → List Json → Prop
  | _, [] => True
  | shape, v :: vs =>
    Fits shape.item v ∧ (vs ≠ [] → shape.rest ≠ .bytes 0) ∧ FitsItems shape.rest vs

@[inherit_doc Fits]
def FitsMembers : Shape → List (Option (List Char) × Json) → Prop
  | _, [] => True
  | shape, (k, v) :: ms => k.isSome ∧ Fits (shape.member k) v ∧ FitsMembers shape ms

end

/-! ## Strings -/

/-- The piece that a character of a printed string is read as. -/
def pieceOf (c : Char) : Piece :=
  if c ∈ ['"', '\\', '\x08', '\x0c', '\n', '\r', '\t'] then .char c
  else if c < ' ' then .unit c.toNat
  else .char c

theorem textOfPieces_pieceOf_cons (c : Char) (ps : List Piece) :
    textOfPieces (pieceOf c :: ps) = (textOfPieces ps).map (c :: ·) := by
  unfold pieceOf
  split
  case isTrue => rfl
  case isFalse =>
    split
    case isTrue h =>
      have hlt : c.toNat < 32 := h
      have hh : isHighSurrogate c.toNat = false := by simp [isHighSurrogate]; omega
      have hl : isLowSurrogate c.toNat = false := by simp [isLowSurrogate]; omega
      rw [textOfPieces.eq_def]
      simp [hh, hl, Char.ofNat_toNat]
    case isFalse => rfl

theorem textOfPieces_map_pieceOf (cs : List Char) :
    textOfPieces (cs.map pieceOf) = some cs := by
  induction cs with
  | nil => rfl
  | cons c cs ih => simp [textOfPieces_pieceOf_cons, ih]

/-- The escape of a control character spells its code. -/
theorem spells_codeEscape {c : Char} (hc : c < ' ') : (Piece.unit c.toNat).Spells (codeEscape c) := by
  have hlt : c.toNat < 32 := hc
  have hzero : Numeral.IsDigit 16 '0' 0 := ⟨by decide, .inl rfl⟩
  have hhigh : Numeral.IsDigit 16 (c.toNat / 16).digitChar (c.toNat / 16) := ⟨by omega, .inl rfl⟩
  have hlow : Numeral.IsDigit 16 (c.toNat % 16).digitChar (c.toNat % 16) := ⟨by omega, .inl rfl⟩
  have hvalue : ((0 * 16 + 0) * 16 + c.toNat / 16) * 16 + c.toNat % 16 = c.toNat := by omega
  have hcode := Piece.Spells.code hzero hzero hhigh hlow
  rwa [hvalue] at hcode

/-- A character inside a printed string spells its piece. -/
theorem spells_escaped (c : Char) : (pieceOf c).Spells (escaped c) := by
  by_cases hs : c ∈ ['"', '\\', '\x08', '\x0c', '\n', '\r', '\t']
  · have hp : pieceOf c = .char c := if_pos hs
    rw [hp]
    simp only [List.mem_cons, List.not_mem_nil, or_false] at hs
    rcases hs with rfl | rfl | rfl | rfl | rfl | rfl | rfl <;> exact .letter (by simp [letters])
  · have hp : pieceOf c = if c < ' ' then .unit c.toNat else .char c := if_neg hs
    have he : escaped c = if c < ' ' then codeEscape c else [c] := by
      simp only [List.mem_cons, List.not_mem_nil, or_false, not_or] at hs
      simp [escaped, hs]
    rw [hp, he]
    by_cases hc : c < ' '
    · rw [if_pos hc, if_pos hc]
      exact spells_codeEscape hc
    · rw [if_neg hc, if_neg hc]
      simp only [List.mem_cons, List.not_mem_nil, or_false, not_or] at hs
      exact .plain hc hs.1 hs.2.1

theorem spellsInside_escaped (cs : List Char) :
    SpellsInside (cs.map pieceOf) (cs.flatMap escaped) := by
  induction cs with
  | nil => exact .nil
  | cons c cs ih => exact .cons (spells_escaped c) ih

theorem spells_quoted (cs : List Char) : (Token.string (some cs)).Spells (quoted (some cs)) := by
  have hstring := Token.Spells.string (spellsInside_escaped cs)
  rwa [textOfPieces_map_pieceOf] at hstring

/-! ## Printed values -/

section

variable {ts : List Token} {cs : List Char}

theorem Spells.mark {c : Char} {t : Token} (h : (c, t) ∈ marks) (hcs : Spells ts cs) :
    Spells (t :: ts) (c :: cs) := .token (.mark h) hcs

/-- The key of a member and the colon behind it. -/
theorem Spells.key (k : List Char) (hcs : Spells ts cs) :
    Spells (.string (some k) :: .colon :: ts) (quoted (some k) ++ ':' :: cs) :=
  .token (spells_quoted k) (.mark (by simp [marks]) hcs)

end

mutual

/-- The printed form spells the tokens of the value. -/
theorem Fits.spells : ∀ {v : Json} {shape : Shape} {ts : List Token} {cs : List Char},
    Fits shape v → Spells ts cs → Spells (v.tokens ++ ts) (v.print ++ cs)
  | .null, _, _, _, _, h => by
    rw [tokens, print]
    exact .token (.word (by simp [words])) h
  | .bool true, _, _, _, _, h => by
    rw [tokens, print]
    exact .token (.word (by simp [words])) h
  | .bool false, _, _, _, _, h => by
    rw [tokens, print]
    exact .token (.word (by simp [words])) h
  | .number cs, _, _, _, hv, h => by
    simp only [Fits] at hv
    rw [tokens, print]
    exact .token (.number (isLiteral_iff.1 hv)) h
  | .string none, _, _, _, hv, _ => by simp [Fits] at hv
  | .string (some cs), _, _, _, _, h => by
    rw [tokens, print]
    exact .token (spells_quoted cs) h
  | .array [], _, _, _, _, h => by
    rw [tokens, print]
    exact .mark (by simp [marks]) (.mark (by simp [marks]) h)
  | .array (v :: vs), shape, ts, cs, hv, h => by
    simp only [Fits, FitsItems] at hv
    have hitems := hv.1.spells (hv.2.2.spells h)
    rw [tokens, print]
    simpa using Spells.mark (c := '[') (t := .leftBracket) (by simp [marks]) hitems
  | .object [], _, _, _, _, h => by
    rw [tokens, print]
    exact .mark (by simp [marks]) (.mark (by simp [marks]) h)
  | .object ((k, v) :: ms), shape, ts, cs, hv, h => by
    simp only [Fits, FitsMembers] at hv
    obtain ⟨key, rfl⟩ := Option.isSome_iff_exists.1 hv.1
    have hmembers := (hv.2.1.spells (hv.2.2.spells h)).key key
    rw [tokens, print]
    simpa using Spells.mark (c := '\x7b') (t := .leftBrace) (by simp [marks]) hmembers

/-- The further items and the end of an array spell their tokens. -/
theorem FitsItems.spells : ∀ {vs : List Json} {shape : Shape} {ts : List Token} {cs : List Char},
    FitsItems shape vs → Spells ts cs → Spells (itemTokens vs ++ ts) (printItems vs ++ cs)
  | [], _, _, _, _, h => by
    rw [itemTokens, printItems]
    exact .mark (by simp [marks]) h
  | v :: vs, shape, ts, cs, hvs, h => by
    simp only [FitsItems] at hvs
    have hitems := hvs.1.spells (hvs.2.2.spells h)
    rw [itemTokens, printItems]
    simpa using Spells.mark (c := ',') (t := .comma) (by simp [marks]) hitems

/-- The further members and the end of an object spell their tokens. -/
theorem FitsMembers.spells : ∀ {ms : List (Option (List Char) × Json)} {shape : Shape}
    {ts : List Token} {cs : List Char}, FitsMembers shape ms → Spells ts cs →
    Spells (memberTokens ms ++ ts) (printMembers ms ++ cs)
  | [], _, _, _, _, h => by
    rw [memberTokens, printMembers]
    exact .mark (by simp [marks]) h
  | (k, v) :: ms, shape, ts, cs, hms, h => by
    simp only [FitsMembers] at hms
    obtain ⟨key, rfl⟩ := Option.isSome_iff_exists.1 hms.1
    have hmembers := (hms.2.1.spells (hms.2.2.spells h)).key key
    rw [memberTokens, printMembers]
    simpa using Spells.mark (c := ',') (t := .comma) (by simp [marks]) hmembers

end

theorem Fits.denotes {shape : Shape} {v : Json} (h : Fits shape v) : Denotes v.render v := by
  have hspells := h.spells .nil
  rwa [List.append_nil, List.append_nil, show v.print = v.render.toList by simp [render]] at hspells

/-! ## Nothing is dropped -/

mutual

/-- A value that fits the shape is taken for what it is. -/
theorem Fits.taken : ∀ {v : Json} {shape : Shape}, Fits shape v →
    shape.take? v = some v ∧ shape.Unbroken v
  | .null, _, _ | .bool _, _, _ | .number _, _, _ | .string _, _, _ | .array [], _, _ => by
    simp [Shape.take?, Shape.Unbroken]
  | .array (v :: vs), shape, hv => by
    simp only [Fits, FitsItems] at hv
    obtain ⟨hfirst, hfirst'⟩ := hv.1.taken
    obtain ⟨hrest, hrest'⟩ := hv.2.2.taken hv.2.1
    simp only [Shape.take?, Shape.Unbroken, hfirst, hrest]
    exact ⟨rfl, hfirst', hrest'⟩
  | .object ms, shape, hv => by
    simp only [Fits] at hv
    obtain ⟨hms, hms'⟩ := hv.taken
    simp only [Shape.take?, Shape.Unbroken, hms]
    exact ⟨rfl, hms'⟩

theorem FitsItems.taken : ∀ {vs : List Json} {shape : Shape}, FitsItems shape vs →
    (vs ≠ [] → shape ≠ .bytes 0) → shape.takeRest? vs = some vs ∧ shape.UnbrokenRest vs
  | [], _, _, _ => by simp [Shape.takeRest?, Shape.UnbrokenRest]
  | v :: vs, shape, hvs, hfull => by
    simp only [FitsItems] at hvs
    obtain ⟨hfirst, hfirst'⟩ := hvs.1.taken
    obtain ⟨hrest, hrest'⟩ := hvs.2.2.taken hvs.2.1
    rw [Shape.takeRest?_cons (hfull nofun), Shape.unbrokenRest_cons (hfull nofun), hfirst, hrest]
    exact ⟨rfl, hfirst', hrest'⟩

theorem FitsMembers.taken : ∀ {ms : List (Option (List Char) × Json)} {shape : Shape},
    FitsMembers shape ms → shape.takeMembers? ms = some ms ∧ shape.UnbrokenMembers ms
  | [], _, _ => by simp [Shape.takeMembers?, Shape.UnbrokenMembers]
  | (k, v) :: ms, shape, hms => by
    simp only [FitsMembers] at hms
    obtain ⟨hfirst, hfirst'⟩ := hms.2.1.taken
    obtain ⟨hrest, hrest'⟩ := hms.2.2.taken
    simp only [Shape.takeMembers?, Shape.UnbrokenMembers, hfirst, hrest]
    exact ⟨rfl, hfirst', hrest'⟩

end

/-- A value that fits the expected shape is read back from its text. -/
theorem parse?_render {shape : Shape} {v : Json} (hv : Fits shape v) :
    parse? shape v.render = some v := by
  obtain ⟨htake, hunbroken⟩ := hv.taken
  rw [hv.denotes.parse?_eq_take? hunbroken, htake]

end ShieldedWallet.Json

namespace ShieldedWallet.Codec

variable {α : Type}

/-- What is written can be read back from a text. -/
def Legible (c : Codec α) : Prop := ∀ a, Json.Fits c.shape (c.write a)

/-- A faithful codec gives back every value from its document. -/
theorem Faithful.parse?_print {c : Codec α} (hc : c.Faithful) (hl : c.Legible) (a : α) :
    c.parse? (c.print a) = some a := by
  simp [parse?, print, Json.parse?_render (hl a), hc a]

end ShieldedWallet.Codec
