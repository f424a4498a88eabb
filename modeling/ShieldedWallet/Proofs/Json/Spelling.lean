import ShieldedWallet.Json.Reader
import ShieldedWallet.Proofs.Text.Digits

/-!
# JSON texts

What a JSON text is can be said without reading it. A value comes down to a sequence of tokens; a token
may be spelled in several ways, a string most of all; and any blanks may stand between two tokens. The
lexer undoes all that: what a reader makes of a text is what it makes of the tokens that are spelled
there (`outcome_spells`), however they are spelled.

One thing hinders it. A string that is passed over behind the last byte of a byte string breaks off
where it ceases to make up a text, and what comes next is then no token of the text any more
(`Reader.Smooth`).
-/

namespace ShieldedWallet.Json

/-! ## The grammar of tokens -/

/-- One decimal digit after another, at least one. -/
def AreDigits (cs : List Char) : Prop := cs ≠ [] ∧ ∀ c ∈ cs, c.isDigit = true

/-- A zero alone, or digits that do not begin with a zero. -/
def IsWhole (cs : List Char) : Prop := cs = ['0'] ∨ AreDigits cs ∧ cs.head? ≠ some '0'

def IsFraction (cs : List Char) : Prop := cs = [] ∨ ∃ ds, cs = '.' :: ds ∧ AreDigits ds

def IsExponent (cs : List Char) : Prop :=
  cs = [] ∨ ∃ mark sign ds, cs = mark :: (sign ++ ds) ∧ mark ∈ ['e', 'E'] ∧
    sign ∈ [[], ['+'], ['-']] ∧ AreDigits ds

/-- The literal of a number. -/
def IsNumber (cs : List Char) : Prop :=
  ∃ sign whole fraction exponent, cs = sign ++ (whole ++ (fraction ++ exponent)) ∧
    sign ∈ [[], ['-']] ∧ IsWhole whole ∧ IsFraction fraction ∧ IsExponent exponent

/-- The letters that may stand behind a backslash, with the characters that they stand for. -/
def letters : List (Char × Char) :=
  [('"', '"'), ('\\', '\\'), ('/', '/'), ('b', '\x08'), ('f', '\x0c'), ('n', '\n'), ('r', '\r'),
    ('t', '\t')]

/-- The spellings of a part of a string. -/
inductive Piece.Spells : Piece → List Char → Prop where
  | plain {c : Char} (hc : ¬ c < ' ') (hquote : c ≠ '"') (hback : c ≠ '\\') :
      (Piece.char c).Spells [c]
  | letter {c d : Char} (h : (c, d) ∈ letters) : (Piece.char d).Spells ['\\', c]
  | code {c₁ c₂ c₃ c₄ : Char} {d₁ d₂ d₃ d₄ : Nat} (h₁ : Numeral.IsDigit 16 c₁ d₁)
      (h₂ : Numeral.IsDigit 16 c₂ d₂) (h₃ : Numeral.IsDigit 16 c₃ d₃)
      (h₄ : Numeral.IsDigit 16 c₄ d₄) :
      (Piece.unit (((d₁ * 16 + d₂) * 16 + d₃) * 16 + d₄)).Spells ['\\', 'u', c₁, c₂, c₃, c₄]

/-- The spellings of the inside of a string. -/
inductive SpellsInside : List Piece → List Char → Prop where
  | nil : SpellsInside [] []
  | cons {p : Piece} {ps : List Piece} {cs ds : List Char} (hp : p.Spells cs)
      (h : SpellsInside ps ds) : SpellsInside (p :: ps) (cs ++ ds)

/-- The characters that are tokens of their own. -/
def marks : List (Char × Token) :=
  [('\x7b', .leftBrace), ('\x7d', .rightBrace), ('[', .leftBracket), (']', .rightBracket),
    (',', .comma), (':', .colon)]

/-- The words that are tokens. -/
def words : List (List Char × Token) :=
  [(['n', 'u', 'l', 'l'], .null), (['t', 'r', 'u', 'e'], .bool true),
    (['f', 'a', 'l', 's', 'e'], .bool false)]

/-- The spellings of a token. -/
inductive Token.Spells : Token → List Char → Prop where
  | mark {c : Char} {t : Token} (h : (c, t) ∈ marks) : t.Spells [c]
  | word {cs : List Char} {t : Token} (h : (cs, t) ∈ words) : t.Spells cs
  | number {cs : List Char} (h : IsNumber cs) : (Token.number cs).Spells cs
  | string {ps : List Piece} {cs : List Char} (h : SpellsInside ps cs) :
      (Token.string (textOfPieces ps)).Spells ('"' :: cs ++ ['"'])

/-- The spellings of a sequence of tokens, with blanks between them. -/
inductive Spells : List Token → List Char → Prop where
  | nil : Spells [] []
  | blank {c : Char} {ts : List Token} {cs : List Char} (hc : isBlank c = true) (h : Spells ts cs) :
      Spells ts (c :: cs)
  | token {t : Token} {ts : List Token} {cs ds : List Char} (ht : t.Spells cs) (h : Spells ts ds) :
      Spells (t :: ts) (cs ++ ds)

/-! ## Plain spellings -/

/-- Whether a character may stand for itself in a string. -/
def isPlain (c : Char) : Bool := !(decide (c < ' ') || c == '"' || c == '\\')

theorem Piece.Spells.of_isPlain {c : Char} (h : isPlain c = true) : (Piece.char c).Spells [c] := by
  obtain ⟨hc, hquote, hback⟩ : ¬ c < ' ' ∧ c ≠ '"' ∧ c ≠ '\\' := by simpa [isPlain, and_assoc] using h
  exact .plain hc hquote hback

theorem spellsInside_plain {cs : List Char} (h : cs.all isPlain = true) :
    SpellsInside (cs.map .char) cs ∧ textOfPieces (cs.map .char) = some cs := by
  induction cs with
  | nil => exact ⟨.nil, rfl⟩
  | cons c cs ih =>
    obtain ⟨hc, hcs⟩ : isPlain c = true ∧ cs.all isPlain = true := by simpa using h
    obtain ⟨hinside, htext⟩ := ih hcs
    exact ⟨.cons (.of_isPlain hc) hinside, by simp [textOfPieces, htext]⟩

/-- A text of plain characters may stand between quotes as it is. -/
theorem Token.Spells.plain {cs : List Char} (h : cs.all isPlain = true) :
    (Token.string (some cs)).Spells ('"' :: cs ++ ['"']) := by
  obtain ⟨hinside, htext⟩ := spellsInside_plain h
  exact htext ▸ .string hinside

/-! ## The grammar of values -/

mutual

/-- The tokens of a value. -/
def tokens : Json → List Token
  | .null => [.null]
  | .bool b => [.bool b]
  | .number literal => [.number literal]
  | .string s => [.string s]
  | .array [] => [.leftBracket, .rightBracket]
  | .array (v :: vs) => .leftBracket :: (tokens v ++ itemTokens vs)
  | .object [] => [.leftBrace, .rightBrace]
  | .object ((k, v) :: ms) => .leftBrace :: .string k :: .colon :: (tokens v ++ memberTokens ms)

/-- The tokens of the further items of an array and of its end. -/
def itemTokens : List Json → List Token
  | [] => [.rightBracket]
  | v :: vs => .comma :: (tokens v ++ itemTokens vs)

/-- The tokens of the further members of an object and of its end. -/
def memberTokens : List (Option (List Char) × Json) → List Token
  | [] => [.rightBrace]
  | (k, v) :: ms => .comma :: .string k :: .colon :: (tokens v ++ memberTokens ms)

end

/-- The text denotes the value: it spells the tokens of the value. -/
def Denotes (s : String) (v : Json) : Prop := Spells v.tokens s.toList

/-! ## Numbers -/

/-- Whether the characters are what the lexer takes for the literal of a number. -/
def IsLiteral (cs : List Char) : Prop :=
  ∃ c ds p q, cs = c :: ds ∧ NumberPart.first? c = some p ∧
    ds.foldlM NumberPart.next? p = some q ∧ q.isLast = true

namespace NumberPart

/-- The parts of a number that go on with digits. -/
def takesDigits : NumberPart → Bool
  | .integer | .fraction | .exponent => true
  | .minus | .zero | .point | .mark | .sign => false

theorem next?_of_takesDigits {p : NumberPart} (hp : p.takesDigits = true) {c : Char}
    (hc : c.isDigit = true) : p.next? c = some p := by
  cases p <;> simp [takesDigits, next?, hc] at hp ⊢

theorem foldlM_digits {p : NumberPart} (hp : p.takesDigits = true) {ds : List Char}
    (hds : ∀ c ∈ ds, c.isDigit = true) : ds.foldlM next? p = some p := by
  induction ds with
  | nil => rfl
  | cons c ds ih =>
    rw [List.foldlM_cons, next?_of_takesDigits hp (hds c (by simp))]
    exact ih fun d hd => hds d (by simp [hd])

/-- Digits lead from `p` into `q` if the first one does. -/
theorem foldlM_areDigits {p q : NumberPart} (hq : q.takesDigits = true)
    (hpq : ∀ c : Char, c.isDigit = true → p.next? c = some q) {ds : List Char}
    (hds : AreDigits ds) : ds.foldlM next? p = some q := by
  obtain ⟨hne, hall⟩ := hds
  cases ds with
  | nil => exact absurd rfl hne
  | cons c ds =>
    rw [List.foldlM_cons, hpq c (hall c (by simp))]
    exact foldlM_digits hq fun d hd => hall d (by simp [hd])

theorem foldlM_whole {cs : List Char} (h : IsWhole cs) :
    ∃ p ∈ [NumberPart.zero, .integer], cs.foldlM next? .minus = some p := by
  rcases h with rfl | ⟨⟨hne, hall⟩, hzero⟩
  · exact ⟨.zero, by simp, rfl⟩
  · cases cs with
    | nil => exact absurd rfl hne
    | cons c cs =>
      have hc : c ≠ '0' := by simpa using hzero
      have hfirst : next? .minus c = some .integer := by simp [next?, hc, hall c (by simp)]
      refine ⟨.integer, by simp, ?_⟩
      rw [List.foldlM_cons, hfirst]
      exact foldlM_digits rfl fun d hd => hall d (by simp [hd])

theorem foldlM_fraction {cs : List Char} (h : IsFraction cs) {p : NumberPart}
    (hp : p ∈ [NumberPart.zero, .integer]) :
    ∃ q ∈ [NumberPart.zero, .integer, .fraction], cs.foldlM next? p = some q := by
  rcases h with rfl | ⟨ds, rfl, hds⟩
  · exact ⟨p, List.mem_append_left [NumberPart.fraction] hp, rfl⟩
  · have hpoint : p.next? '.' = some .point := by
      simp only [List.mem_cons, List.not_mem_nil, or_false] at hp
      rcases hp with rfl | rfl <;> rfl
    refine ⟨.fraction, by simp, ?_⟩
    rw [List.foldlM_cons, hpoint]
    exact foldlM_areDigits rfl (fun c hc => by simp [next?, hc]) hds

theorem foldlM_exponent {cs : List Char} (h : IsExponent cs) {p : NumberPart}
    (hp : p ∈ [NumberPart.zero, .integer, .fraction]) :
    ∃ q : NumberPart, q.isLast = true ∧ cs.foldlM next? p = some q := by
  simp only [List.mem_cons, List.not_mem_nil, or_false] at hp
  rcases h with rfl | ⟨mark, sign, ds, rfl, hmark, hsign, hds⟩
  · refine ⟨p, ?_, rfl⟩
    rcases hp with rfl | rfl | rfl <;> rfl
  · have hnext : p.next? mark = some .mark := by
      simp only [List.mem_cons, List.not_mem_nil, or_false] at hmark
      rcases hp with rfl | rfl | rfl <;> rcases hmark with rfl | rfl <;> rfl
    refine ⟨.exponent, rfl, ?_⟩
    rw [List.foldlM_cons, hnext]
    show (sign ++ ds).foldlM next? .mark = _
    rw [List.foldlM_append]
    have hdigits : ∀ q ∈ [NumberPart.mark, .sign], ds.foldlM next? q = some .exponent := by
      intro q hq
      simp only [List.mem_cons, List.not_mem_nil, or_false] at hq
      refine foldlM_areDigits rfl (fun c hc => ?_) hds
      rcases hq with rfl | rfl <;> simp [next?, hc]
    simp only [List.mem_cons, List.not_mem_nil, or_false] at hsign
    rcases hsign with rfl | rfl | rfl
    · exact hdigits .mark (by simp)
    · exact hdigits .sign (by simp)
    · exact hdigits .sign (by simp)

/-- What may follow the part `p` of a number up to the end of the number. -/
def Precedes : NumberPart → List Char → Prop
  | .minus, cs => ∃ whole fraction exponent, cs = whole ++ (fraction ++ exponent) ∧ IsWhole whole ∧
    IsFraction fraction ∧ IsExponent exponent
  | .zero, cs => ∃ fraction exponent, cs = fraction ++ exponent ∧ IsFraction fraction ∧
    IsExponent exponent
  | .integer, cs => ∃ ds fraction exponent, cs = ds ++ (fraction ++ exponent) ∧
    (∀ d ∈ ds, d.isDigit = true) ∧ IsFraction fraction ∧ IsExponent exponent
  | .point, cs => ∃ ds exponent, cs = ds ++ exponent ∧ AreDigits ds ∧ IsExponent exponent
  | .fraction, cs => ∃ ds exponent, cs = ds ++ exponent ∧ (∀ d ∈ ds, d.isDigit = true) ∧
    IsExponent exponent
  | .mark, cs => ∃ sign ds, cs = sign ++ ds ∧ sign ∈ [[], ['+'], ['-']] ∧ AreDigits ds
  | .sign, cs => AreDigits cs
  | .exponent, cs => ∀ d ∈ cs, d.isDigit = true

theorem areDigits_cons {c : Char} {ds : List Char} (hc : c.isDigit = true)
    (hds : ∀ d ∈ ds, d.isDigit = true) : AreDigits (c :: ds) :=
  ⟨by simp, List.forall_mem_cons.2 ⟨hc, hds⟩⟩

theorem isExponent_cons {c : Char} {cs : List Char} (hc : isMark c = true)
    (h : Precedes .mark cs) : IsExponent (c :: cs) := by
  obtain ⟨sign, ds, rfl, hsign, hds⟩ := h
  refine .inr ⟨c, sign, ds, rfl, ?_, hsign, hds⟩
  simpa [isMark] using hc

/-- One more character in front of what may follow. -/
theorem precedes_cons {p q : NumberPart} {c : Char} {cs : List Char} (h : p.next? c = some q)
    (hcs : q.Precedes cs) : p.Precedes (c :: cs) := by
  have hmark : ∀ {cs}, isMark c = true → Precedes .mark cs → ∃ fraction exponent,
      c :: cs = fraction ++ exponent ∧ IsFraction fraction ∧ IsExponent exponent := fun hc h =>
    ⟨[], _, rfl, .inl rfl, isExponent_cons hc h⟩
  have hpoint : ∀ {cs}, c = '.' → Precedes .point cs → ∃ fraction exponent,
      c :: cs = fraction ++ exponent ∧ IsFraction fraction ∧ IsExponent exponent := by
    rintro cs rfl ⟨ds, exponent, rfl, hds, hexponent⟩
    exact ⟨'.' :: ds, exponent, rfl, .inr ⟨ds, rfl, hds⟩, hexponent⟩
  unfold next? at h
  cases p with
  | minus =>
    simp only at h
    split at h
    · rename_i hc
      cases h
      subst hc
      obtain ⟨fraction, exponent, rfl, hfraction, hexponent⟩ := hcs
      exact ⟨['0'], fraction, exponent, rfl, .inl rfl, hfraction, hexponent⟩
    · rename_i hzero
      split at h
      · rename_i hc
        cases h
        obtain ⟨ds, fraction, exponent, rfl, hds, hfraction, hexponent⟩ := hcs
        exact ⟨c :: ds, fraction, exponent, rfl, .inr ⟨areDigits_cons hc hds, by simpa using hzero⟩,
          hfraction, hexponent⟩
      · cases h
  | zero =>
    simp only at h
    split at h
    · rename_i hc
      cases h
      exact hpoint hc hcs
    · split at h
      · rename_i hc
        cases h
        exact hmark hc hcs
      · cases h
  | integer =>
    simp only at h
    split at h
    · rename_i hc
      cases h
      obtain ⟨ds, fraction, exponent, rfl, hds, hfraction, hexponent⟩ := hcs
      exact ⟨c :: ds, fraction, exponent, rfl, List.forall_mem_cons.2 ⟨hc, hds⟩, hfraction, hexponent⟩
    · split at h
      · rename_i hc
        cases h
        obtain ⟨fraction, exponent, he, hfraction, hexponent⟩ := hpoint hc hcs
        exact ⟨[], fraction, exponent, he, nofun, hfraction, hexponent⟩
      · split at h
        · rename_i hc
          cases h
          obtain ⟨fraction, exponent, he, hfraction, hexponent⟩ := hmark hc hcs
          exact ⟨[], fraction, exponent, he, nofun, hfraction, hexponent⟩
        · cases h
  | point =>
    simp only at h
    split at h
    · rename_i hc
      cases h
      obtain ⟨ds, exponent, rfl, hds, hexponent⟩ := hcs
      exact ⟨c :: ds, exponent, rfl, areDigits_cons hc hds, hexponent⟩
    · cases h
  | fraction =>
    simp only at h
    split at h
    · rename_i hc
      cases h
      obtain ⟨ds, exponent, rfl, hds, hexponent⟩ := hcs
      exact ⟨c :: ds, exponent, rfl, List.forall_mem_cons.2 ⟨hc, hds⟩, hexponent⟩
    · split at h
      · rename_i hc
        cases h
        exact ⟨[], _, rfl, nofun, isExponent_cons hc hcs⟩
      · cases h
  | mark =>
    simp only at h
    split at h
    · rename_i hc
      cases h
      exact ⟨[], c :: cs, rfl, by simp, areDigits_cons hc hcs⟩
    · split at h
      · rename_i hc
        cases h
        refine ⟨[c], cs, rfl, ?_, hcs⟩
        rcases hc with rfl | rfl <;> simp
      · cases h
  | sign | exponent =>
    simp only at h
    split at h
    · rename_i hc
      cases h
      first
        | exact areDigits_cons hc hcs
        | exact List.forall_mem_cons.2 ⟨hc, hcs⟩
    · cases h

theorem precedes_of_foldlM {p q : NumberPart} {cs : List Char} (h : cs.foldlM next? p = some q)
    (hq : q.isLast = true) : p.Precedes cs := by
  induction cs generalizing p with
  | nil =>
    obtain rfl : p = q := by simpa using h
    cases p with
    | zero => exact ⟨[], [], rfl, .inl rfl, .inl rfl⟩
    | integer => exact ⟨[], [], [], rfl, nofun, .inl rfl, .inl rfl⟩
    | fraction => exact ⟨[], [], rfl, nofun, .inl rfl⟩
    | exponent => exact nofun
    | minus | point | mark | sign => cases hq
  | cons c cs ih =>
    rw [List.foldlM_cons] at h
    obtain ⟨p', hp', h'⟩ := Option.bind_eq_some_iff.1 h
    exact precedes_cons hp' (ih h')

end NumberPart

theorem IsWhole.ne_nil {cs : List Char} (h : IsWhole cs) : cs ≠ [] := by
  rcases h with rfl | h
  · simp
  · exact h.1.1

/-- The literals of numbers are what the lexer takes for them. -/
theorem isLiteral_iff {cs : List Char} : IsLiteral cs ↔ IsNumber cs := by
  constructor
  · rintro ⟨c, ds, p, q, rfl, hp, hq, hlast⟩
    have hds : p.Precedes ds := NumberPart.precedes_of_foldlM hq hlast
    by_cases hc : c = '-'
    · subst hc
      obtain rfl : NumberPart.minus = p := Option.some.inj hp
      obtain ⟨whole, fraction, exponent, rfl, hwhole, hfraction, hexponent⟩ := hds
      exact ⟨['-'], whole, fraction, exponent, rfl, by simp, hwhole, hfraction, hexponent⟩
    · have hnext : NumberPart.next? .minus c = some p := by
        simpa only [NumberPart.first?, if_neg hc] using hp
      obtain ⟨whole, fraction, exponent, he, hwhole, hfraction, hexponent⟩ :=
        NumberPart.precedes_cons hnext hds
      exact ⟨[], whole, fraction, exponent, he, by simp, hwhole, hfraction, hexponent⟩
  · rintro ⟨sign, whole, fraction, exponent, rfl, hsign, hwhole, hfraction, hexponent⟩
    obtain ⟨p, hp, hp'⟩ := NumberPart.foldlM_whole hwhole
    obtain ⟨q, hq, hq'⟩ := NumberPart.foldlM_fraction hfraction hp
    obtain ⟨l, hl, hl'⟩ := NumberPart.foldlM_exponent hexponent hq
    have hrest : (whole ++ (fraction ++ exponent)).foldlM NumberPart.next? .minus = some l := by
      simp [List.foldlM_append, hp', hq', hl']
    simp only [List.mem_cons, List.not_mem_nil, or_false] at hsign
    rcases hsign with rfl | rfl
    · obtain ⟨c, ds, he⟩ := List.exists_cons_of_ne_nil
        (List.append_ne_nil_of_left_ne_nil hwhole.ne_nil (fraction ++ exponent))
      rw [he, List.foldlM_cons] at hrest
      obtain ⟨k, hk, hrest⟩ := Option.bind_eq_some_iff.1 hrest
      have hc : c ≠ '-' := by
        rintro rfl
        cases hk
      exact ⟨c, ds, k, l, he, by simp [NumberPart.first?, hc, hk], hrest, hl⟩
    · exact ⟨'-', _, .minus, l, rfl, rfl, hrest, hl⟩

/-! ## Reading on without the end of a token -/

/-- Reading `cs` for `r` in the mode `m` ends no token and leads to the mode `n`. -/
def Mode.Advances (r : Reader) (m : Mode) (cs : List Char) (n : Mode) : Prop :=
  cs.foldlM Progress.step? ⟨m, r⟩ = some ⟨n, r⟩

section

variable {r : Reader} {m n k : Mode} {c : Char} {cs ds : List Char}

theorem Progress.step?_eq (hl : r.isSated = true → m.loss? c = none) :
    Progress.step? ⟨m, r⟩ c = (m.step? c).bind fun x =>
      (x.2.foldlM Reader.step? r).bind fun r' => some ⟨x.1, r'⟩ := by
  unfold Progress.step?
  split
  · rename_i hs
    rw [Mode.stepSurplus?, hl hs]
    rfl
  · rfl

theorem Mode.Advances.nil : Advances r m [] m := rfl

theorem Mode.Advances.cons (h : m.step? c = some (n, [])) (hl : r.isSated = true → m.loss? c = none)
    (hn : Advances r n cs k) : Advances r m (c :: cs) k := by
  unfold Mode.Advances
  rw [List.foldlM_cons, Progress.step?_eq hl, h]
  exact hn

theorem Mode.Advances.append (h : Advances r m cs n) (h' : Advances r n ds k) :
    Advances r m (cs ++ ds) k := by
  unfold Mode.Advances
  rw [List.foldlM_append, h]
  exact h'

/-! ## Strings -/

theorem shortEscape?_of_mem_letters {c d : Char} (h : (c, d) ∈ letters) :
    shortEscape? c = some d ∧ c ≠ 'u' := by
  have hall : ∀ l ∈ letters, shortEscape? l.1 = some l.2 ∧ l.1 ≠ 'u' := by decide
  exact hall _ h

/-- Whether the piece is the second half of a surrogate pair. -/
def Piece.isSecond : Piece → Bool
  | .char _ => false
  | .unit n => isLowSurrogate n

theorem endsHalved_cons (p : Piece) (ps : List Piece) :
    endsHalved (p :: ps) = endsHalved [p] := by
  cases p <;> rfl

/-- A piece is read as what it is. A surplus string goes on if the piece is the second half of a pair
exactly behind the first one. -/
theorem Piece.Spells.advances {p : Piece} {ps : List Piece} (h : p.Spells cs)
    (hp : r.isSated = true → p.isSecond = endsHalved ps) :
    Mode.Advances r (.string ps) cs (.string (p :: ps)) := by
  have hback : r.isSated = true → (Mode.string ps).loss? '\\' = none := by
    intro _
    simp [Mode.loss?]
  cases h with
  | @plain c hc hquote hb =>
    refine .cons (by simp [Mode.step?, hc, hquote, hb]) (fun hr => ?_) .nil
    have hh : endsHalved ps = false := (hp hr).symm
    simp [Mode.loss?, hc, hh]
  | @letter c d h =>
    obtain ⟨he, hu⟩ := shortEscape?_of_mem_letters h
    refine .cons (n := .escape ps) rfl hback (.cons (by simp [Mode.step?, he, hu]) (fun hr => ?_) .nil)
    have hh : endsHalved ps = false := (hp hr).symm
    simp [Mode.loss?, he, hh]
  | @code c₁ c₂ c₃ c₄ d₁ d₂ d₃ d₄ h₁ h₂ h₃ h₄ =>
    have hdigit : ∀ {c d}, Numeral.IsDigit 16 c d → Numeral.digit? 16 c = some d :=
      fun h => (Numeral.digit?_eq_some_iff (Nat.le_refl _)).2 h
    refine .cons (n := .escape ps) rfl hback (.cons (n := .code ps 0 0) rfl ?_
      (.cons (n := .code ps 1 d₁) ?_ ?_ (.cons (n := .code ps 2 (d₁ * 16 + d₂)) ?_ ?_
        (.cons (n := .code ps 3 ((d₁ * 16 + d₂) * 16 + d₃)) ?_ ?_ (.cons ?_ ?_ .nil)))))
    · simp [Mode.loss?]
    · simp [Mode.step?, hdigit h₁]
    · simp [Mode.loss?, hdigit h₁]
    · simp [Mode.step?, hdigit h₂]
    · simp [Mode.loss?, hdigit h₂]
    · simp [Mode.step?, hdigit h₃]
    · simp [Mode.loss?, hdigit h₃]
    · simp [Mode.step?, hdigit h₄]
    · intro hr
      have hh := hp hr
      simp only [Piece.isSecond] at hh
      simp [Mode.loss?, hdigit h₄, hh]

/-- Each second half of a surrogate pair stands behind a first half, and nothing else does. -/
def Paired : Bool → List Piece → Prop
  | _, [] => True
  | halved, p :: ps => p.isSecond = halved ∧ Paired (endsHalved [p]) ps

/-- The pieces of a string with a text are paired. -/
theorem paired_of_textOfPieces {ps : List Piece} (h : textOfPieces ps ≠ none) : Paired false ps := by
  fun_induction textOfPieces ps with
  | case1 => trivial
  | case2 c ps ih => exact ⟨rfl, ih (by simpa using h)⟩
  | case3 n hn m ps hm ih =>
    have hlow : isLowSurrogate n = false := by
      simp [isHighSurrogate, isLowSurrogate] at hn ⊢
      omega
    have hhigh : isHighSurrogate m = false := by
      simp [isHighSurrogate, isLowSurrogate] at hm ⊢
      omega
    refine ⟨hlow, ?_, ?_⟩
    · simp [Piece.isSecond, endsHalved, hn, hm]
    · have : endsHalved [.unit m] = false := hhigh
      rw [this]
      exact ih (by simpa using h)
  | case4 => exact absurd rfl h
  | case5 => exact absurd rfl h
  | case6 => exact absurd rfl h
  | case7 n ps hn hm ih =>
    refine ⟨by simpa [Piece.isSecond] using hm, ?_⟩
    have : endsHalved [.unit n] = false := by simpa [endsHalved] using hn
    rw [this]
    exact ih (by simpa using h)

theorem SpellsInside.advances {qs ps : List Piece} (h : SpellsInside qs cs)
    (hq : r.isSated = true → Paired (endsHalved ps) qs) :
    Mode.Advances r (.string ps) cs (.string (qs.reverse ++ ps)) := by
  induction h generalizing ps with
  | nil => exact .nil
  | @cons p qs cs ds hp _ ih =>
    have hrest : Mode.Advances r (.string (p :: ps)) ds (.string (qs.reverse ++ p :: ps)) :=
      ih fun hr => endsHalved_cons p ps ▸ (hq hr).2
    rw [List.reverse_cons, List.append_assoc]
    exact (hp.advances fun hr => (hq hr).1).append hrest

/-! ## Words and numbers -/

/-- The first character of a number begins no other token. -/
theorem start?_of_first? {c : Char} {p : NumberPart} (h : NumberPart.first? c = some p) :
    Mode.start? c = some (.number p [c], []) := by
  have hne : ∀ d, NumberPart.first? d = none → c ≠ d := by
    rintro d hd rfl
    rw [hd] at h
    exact absurd h (by simp)
  have hb : isBlank c = false := by
    simp [isBlank, hne ' ' rfl, hne '\t' rfl, hne '\n' rfl, hne '\r' rfl]
  simp [Mode.start?, hb, hne '\x7b' rfl, hne '\x7d' rfl, hne '[' rfl, hne ']' rfl, hne ',' rfl,
    hne ':' rfl, hne '"' rfl, hne 'n' rfl, hne 't' rfl, hne 'f' rfl, h]

theorem IsLiteral.advances (h : IsLiteral cs) :
    ∃ q : NumberPart, q.isLast = true ∧ Mode.Advances r .between cs (.number q cs.reverse) := by
  obtain ⟨c, ds, p, q, rfl, hp, hq, hlast⟩ := h
  refine ⟨q, hlast, .cons (n := .number p [c]) (start?_of_first? hp) (fun _ => rfl) ?_⟩
  have hds : ∀ (ds es : List Char) (p : NumberPart), ds.foldlM NumberPart.next? p = some q →
      Mode.Advances r (.number p es) ds (.number q (ds.reverse ++ es)) := by
    intro ds
    induction ds with
    | nil =>
      intro es p h
      obtain rfl : p = q := by simpa using h
      exact .nil
    | cons d ds ih =>
      intro es p h
      rw [List.foldlM_cons] at h
      obtain ⟨p', hp', h'⟩ := Option.bind_eq_some_iff.1 h
      refine .cons (n := .number p' (d :: es)) (by simp [Mode.step?, hp'])
        (fun _ => by simp [Mode.loss?, hp']) ?_
      simpa using ih (d :: es) p' h'
  simpa using hds ds [c] p hq

/-! ## Tokens -/

/-- What is made of the text `cs` from here on. -/
def Progress.outcome (p : Progress) (cs : List Char) : Option Json :=
  (cs.foldlM Progress.step? p).bind Progress.result?

theorem Progress.outcome_cons (p : Progress) (c : Char) (cs : List Char) :
    p.outcome (c :: cs) = (p.step? c).bind fun q => q.outcome cs := by
  simp [outcome, List.foldlM_cons, Option.bind_assoc]

theorem Mode.Advances.outcome (h : Advances r m cs n) (ds : List Char) :
    (Progress.mk m r).outcome (cs ++ ds) = (Progress.mk n r).outcome ds := by
  rw [Progress.outcome, List.foldlM_append, h]
  rfl

/-- The last character of a token. -/
theorem outcome_last {t : Token} (h : m.step? c = some (.between, [t]))
    (hl : r.isSated = true → m.loss? c = none) (ds : List Char) :
    (Progress.mk m r).outcome (c :: ds) =
      (r.step? t).bind fun r' => (Progress.mk .between r').outcome ds := by
  rw [Progress.outcome_cons, Progress.step?_eq hl, h]
  cases ht : r.step? t <;> simp [ht]

/-- The character separates a value from the next one, or ends its container. -/
def IsDelimiter (c : Char) : Prop := c = ',' ∨ c = ']' ∨ c = '\x7d'

theorem NumberPart.next?_of_isDelimiter {c : Char} (hc : IsDelimiter c) (p : NumberPart) :
    p.next? c = none := by
  rcases hc with rfl | rfl | rfl <;> cases p <;> rfl

/-- The characters that may stand behind a number. -/
def IsBreak (cs : List Char) : Prop := ∀ c ∈ cs.head?, isBlank c = true ∨ IsDelimiter c

theorem start?_of_break {c : Char} (h : isBlank c = true ∨ IsDelimiter c) :
    ∃ ts, Mode.start? c = some (.between, ts) ∧ ∀ p : NumberPart, p.next? c = none := by
  rcases h with h | h
  · have hc : c = ' ' ∨ c = '\t' ∨ c = '\n' ∨ c = '\r' := by
      simpa [isBlank, or_assoc] using h
    refine ⟨[], by simp [Mode.start?, h], fun p => ?_⟩
    rcases hc with rfl | rfl | rfl | rfl <;> cases p <;> rfl
  · have hnext := NumberPart.next?_of_isDelimiter h
    rcases h with rfl | rfl | rfl
    · exact ⟨[.comma], rfl, hnext⟩
    · exact ⟨[.rightBracket], rfl, hnext⟩
    · exact ⟨[.rightBrace], rfl, hnext⟩

/-- A number ends with the character behind it. -/
theorem outcome_number {q : NumberPart} (hq : q.isLast = true) (hds : IsBreak ds) :
    (Progress.mk (.number q cs.reverse) r).outcome ds =
      (r.step? (.number cs)).bind fun r' => (Progress.mk .between r').outcome ds := by
  cases ds with
  | nil =>
    cases ht : r.step? (.number cs) <;>
      simp [Progress.outcome, Progress.result?, Mode.finish?, hq, ht]
  | cons d ds =>
    obtain ⟨ts, hstart, hnext⟩ := start?_of_break (hds d rfl)
    rw [Progress.outcome_cons, Progress.step?_eq fun _ => by simp [Mode.loss?, hq]]
    simp only [Mode.step?, hnext, hq, hstart, if_true, Option.map_some, Option.bind_some,
      List.reverse_reverse, List.foldlM_cons]
    cases ht : r.step? (.number cs) with
    | none => rfl
    | some r' =>
      simp only [Option.bind_eq_bind, Option.bind_some, Progress.outcome_cons]
      rw [Progress.step?_eq fun _ => rfl]
      simp only [Mode.step?, hstart, Option.bind_some]

/-- However a token is spelled, the reader takes it for what it is, provided that a number has ended
and that a surplus string makes up a text. -/
theorem Token.Spells.outcome {t : Token} (h : t.Spells cs)
    (hr : r.isSated = true → t ≠ .string none) (hds : (∃ ds, t = .number ds) → IsBreak ds) :
    (Progress.mk .between r).outcome (cs ++ ds) =
      (r.step? t).bind fun r' => (Progress.mk .between r').outcome ds := by
  cases h with
  | mark h =>
    simp only [marks, List.mem_cons, Prod.mk.injEq, List.not_mem_nil, or_false] at h
    rcases h with ⟨rfl, rfl⟩ | ⟨rfl, rfl⟩ | ⟨rfl, rfl⟩ | ⟨rfl, rfl⟩ | ⟨rfl, rfl⟩ | ⟨rfl, rfl⟩ <;>
      exact outcome_last rfl (fun _ => rfl) ds
  | word h =>
    simp only [words, List.mem_cons, Prod.mk.injEq, List.not_mem_nil, or_false] at h
    rcases h with ⟨rfl, rfl⟩ | ⟨rfl, rfl⟩ | ⟨rfl, rfl⟩
    · have hword : Mode.Advances r .between ['n', 'u', 'l'] (.word ['l'] .null) :=
        .cons rfl (fun _ => rfl) (.cons rfl (fun _ => rfl) (.cons rfl (fun _ => rfl) .nil))
      exact (hword.outcome ('l' :: ds)).trans (outcome_last rfl (fun _ => rfl) ds)
    · have hword : Mode.Advances r .between ['t', 'r', 'u'] (.word ['e'] (.bool true)) :=
        .cons rfl (fun _ => rfl) (.cons rfl (fun _ => rfl) (.cons rfl (fun _ => rfl) .nil))
      exact (hword.outcome ('e' :: ds)).trans (outcome_last rfl (fun _ => rfl) ds)
    · have hword : Mode.Advances r .between ['f', 'a', 'l', 's'] (.word ['e'] (.bool false)) :=
        .cons rfl (fun _ => rfl) (.cons rfl (fun _ => rfl) (.cons rfl (fun _ => rfl)
          (.cons rfl (fun _ => rfl) .nil)))
      exact (hword.outcome ('e' :: ds)).trans (outcome_last rfl (fun _ => rfl) ds)
  | number h =>
    obtain ⟨q, hq, hadvances⟩ := (isLiteral_iff.2 h).advances (r := r)
    rw [hadvances.outcome]
    exact outcome_number hq (hds ⟨_, rfl⟩)
  | @string ps cs h =>
    have hopen : Mode.Advances r .between ['"'] (.string []) := .cons rfl (fun _ => rfl) .nil
    have hinside : Mode.Advances r (.string []) cs (.string (ps.reverse ++ [])) :=
      h.advances fun hs => paired_of_textOfPieces fun hnone => hr hs (by rw [hnone])
    have hsplit : '"' :: cs ++ ['"'] ++ ds = ['"'] ++ cs ++ ('"' :: ds) := by simp
    rw [hsplit, (hopen.append hinside).outcome]
    refine outcome_last (by simp [Mode.step?]) (fun _ => ?_) ds
    simp [Mode.loss?]

/-! ## Sequences of tokens -/

/-- While `r` takes the tokens, no string without a text comes up as a surplus item. -/
def Reader.Smooth : Reader → List Token → Prop
  | _, [] => True
  | r, t :: ts => (r.isSated = true → t ≠ .string none) ∧ ∀ r', r.step? t = some r' → r'.Smooth ts

/-- The tokens that may stand behind a number. -/
def IsStop (ts : List Token) : Prop := ∀ t ∈ ts.head?, t ∈ [.comma, .rightBracket, .rightBrace]

/-- Behind each number there is the end of the text, or a token that ends the number. -/
def Separated : List Token → Prop
  | [] => True
  | t :: ts => ((∃ cs, t = .number cs) → IsStop ts) ∧ Separated ts

theorem Spells.isBreak {ts : List Token} (h : Spells ts cs) (hts : IsStop ts) : IsBreak cs := by
  cases h with
  | nil => simp [IsBreak]
  | blank hc h =>
    rintro d hd
    cases hd
    exact .inl hc
  | @token t ts cs ds ht h =>
    have hstop := hts t rfl
    have hcs : cs = [','] ∨ cs = [']'] ∨ cs = ['\x7d'] := by
      cases ht with
      | mark h =>
        simp only [marks, List.mem_cons, Prod.mk.injEq, List.not_mem_nil, or_false] at h
        rcases h with ⟨rfl, rfl⟩ | ⟨rfl, rfl⟩ | ⟨rfl, rfl⟩ | ⟨rfl, rfl⟩ | ⟨rfl, rfl⟩ | ⟨rfl, rfl⟩ <;>
          simp at hstop ⊢
      | word h =>
        simp only [words, List.mem_cons, Prod.mk.injEq, List.not_mem_nil, or_false] at h
        rcases h with ⟨rfl, rfl⟩ | ⟨rfl, rfl⟩ | ⟨rfl, rfl⟩ <;> simp at hstop
      | number h => simp at hstop
      | string h => simp at hstop
    rintro d hd
    rcases hcs with rfl | rfl | rfl <;> cases hd
    · exact .inr (.inl rfl)
    · exact .inr (.inr (.inl rfl))
    · exact .inr (.inr (.inr rfl))

/-- However a sequence of tokens is spelled, the reader makes of the text what it makes of the tokens. -/
theorem Spells.outcome {ts : List Token} (h : Spells ts cs) (hsep : Separated ts)
    (hsmooth : r.Smooth ts) :
    (Progress.mk .between r).outcome cs = (ts.foldlM Reader.step? r).bind Reader.result? := by
  induction h generalizing r with
  | nil => simp [Progress.outcome, Progress.result?, Mode.finish?]
  | @blank c ts cs hc h ih =>
    have hblank : Mode.Advances r .between [c] .between :=
      .cons (by simp [Mode.step?, Mode.start?, hc]) (fun _ => rfl) .nil
    exact (hblank.outcome cs).trans (ih hsep hsmooth)
  | @token t ts cs ds ht h ih =>
    rw [ht.outcome hsmooth.1 fun hnumber => h.isBreak (hsep.1 hnumber), List.foldlM_cons]
    cases hstep : r.step? t with
    | none => rfl
    | some r' => exact ih hsep.2 (hsmooth.2 r' hstep)

end

/-! ## Values -/

mutual

/-- The numbers of a value are separated from what stands behind it. -/
theorem separated_tokens : ∀ (v : Json) {ts : List Token}, IsStop ts → Separated ts →
    Separated (v.tokens ++ ts)
  | .null, _, _, hts => by simpa [tokens, Separated] using hts
  | .bool _, _, _, hts => by simpa [tokens, Separated] using hts
  | .number _, _, hstop, hts => by simpa [tokens, Separated] using ⟨hstop, hts⟩
  | .string _, _, _, hts => by simpa [tokens, Separated] using hts
  | .array [], _, _, hts => by simpa [tokens, Separated] using hts
  | .array (v :: vs), ts, _, hts => by
    have hitems := separated_itemTokens vs hts
    have hv := separated_tokens v hitems.1 hitems.2
    simpa [tokens, Separated] using hv
  | .object [], _, _, hts => by simpa [tokens, Separated] using hts
  | .object ((k, v) :: ms), ts, _, hts => by
    have hmembers := separated_memberTokens ms hts
    have hv := separated_tokens v hmembers.1 hmembers.2
    simpa [tokens, Separated] using hv

theorem separated_itemTokens : ∀ (vs : List Json) {ts : List Token}, Separated ts →
    IsStop (itemTokens vs ++ ts) ∧ Separated (itemTokens vs ++ ts)
  | [], _, hts => by simpa [itemTokens, Separated, IsStop] using hts
  | v :: vs, ts, hts => by
    have hitems := separated_itemTokens vs hts
    have hv := separated_tokens v hitems.1 hitems.2
    simpa [itemTokens, Separated, IsStop] using hv

theorem separated_memberTokens : ∀ (ms : List (Option (List Char) × Json)) {ts : List Token},
    Separated ts → IsStop (memberTokens ms ++ ts) ∧ Separated (memberTokens ms ++ ts)
  | [], _, hts => by simpa [memberTokens, Separated, IsStop] using hts
  | (k, v) :: ms, ts, hts => by
    have hmembers := separated_memberTokens ms hts
    have hv := separated_tokens v hmembers.1 hmembers.2
    simpa [memberTokens, Separated, IsStop] using hv

end

/-- What a text that denotes a value is read as depends on the tokens of the value alone. -/
theorem Denotes.parse?_eq {s : String} {v : Json} {shape : Shape} (h : Denotes s v)
    (hsmooth : (Reader.value shape []).Smooth v.tokens) :
    parse? shape s = (v.tokens.foldlM Reader.step? (.value shape [])).bind Reader.result? := by
  have hsep : Separated v.tokens := by
    have hv : Separated (v.tokens ++ []) := separated_tokens v (by simp [IsStop]) trivial
    rwa [List.append_nil] at hv
  exact Spells.outcome h hsep hsmooth

end ShieldedWallet.Json
