import ShieldedWallet.Proofs.Json.Spelling

/-!
# What a reader takes a value for

A reader takes every value of a text for what it is, with one exception: where it expects a byte string,
it drops one surplus item behind the last byte if that item passes, and refuses the array if it does
not (`Shape.take?`). So what a text is read as is a function of the value that the text denotes
(`Denotes.parse?_eq_take?`), whatever the spelling.
-/

namespace ShieldedWallet.Json

/-- Whether the value passes as a surplus item. -/
def isPassed : Json → Bool
  | .null | .bool _ | .string _ => true
  | .number cs => (Token.number cs).isPassed
  | .array _ | .object _ => false

namespace Shape

mutual

/-- What a reader who expects the shape takes a value for. -/
def take? : Shape → Json → Option Json
  | _, .null => some .null
  | _, .bool b => some (.bool b)
  | _, .number cs => some (.number cs)
  | _, .string s => some (.string s)
  | _, .array [] => some (.array [])
  | shape, .array (v :: vs) => do
    let w ← take? shape.item v
    let ws ← takeRest? shape.rest vs
    return .array (w :: ws)
  | shape, .object ms => (takeMembers? shape ms).map .object

/-- What a reader takes the further items of an array for. -/
def takeRest? : Shape → List Json → Option (List Json)
  | _, [] => some []
  | shape, v :: vs =>
    match shape with
    | .bytes 0 => if v.isPassed ∧ vs.isEmpty then some [] else none
    | shape => do
      let w ← take? shape.item v
      let ws ← takeRest? shape.rest vs
      return w :: ws

/-- What a reader takes the members of an object for. -/
def takeMembers? : Shape → List (Option (List Char) × Json) →
    Option (List (Option (List Char) × Json))
  | _, [] => some []
  | shape, (k, v) :: ms => do
    let w ← take? (shape.member k) v
    let ws ← takeMembers? shape ms
    return (k, w) :: ws

end

mutual

/-- Whether each surplus string of the value, for a reader who expects the shape, has a text. Surrogates
without a partner are out of place there as in every string that is read. -/
def Unbroken : Shape → Json → Prop
  | _, .null | _, .bool _ | _, .number _ | _, .string _ | _, .array [] => True
  | shape, .array (v :: vs) => Unbroken shape.item v ∧ UnbrokenRest shape.rest vs
  | shape, .object ms => UnbrokenMembers shape ms

/-- Whether each surplus string of the further items has a text. -/
def UnbrokenRest : Shape → List Json → Prop
  | _, [] => True
  | shape, v :: vs =>
    match shape with
    | .bytes 0 => v ≠ .string none
    | shape => Unbroken shape.item v ∧ UnbrokenRest shape.rest vs

/-- Whether each surplus string of the members has a text. -/
def UnbrokenMembers : Shape → List (Option (List Char) × Json) → Prop
  | _, [] => True
  | shape, (k, v) :: ms => Unbroken (shape.member k) v ∧ UnbrokenMembers shape ms

end

/-! ## Items and members -/

theorem takeRest?_cons {shape : Shape} (h : shape ≠ .bytes 0) (v : Json) (vs : List Json) :
    takeRest? shape (v :: vs) = (take? shape.item v).bind fun w =>
      (takeRest? shape.rest vs).map (w :: ·) := by
  rw [takeRest?]
  · cases take? shape.item v with
    | none => rfl
    | some w => cases takeRest? shape.rest vs <;> rfl
  · exact h

theorem unbrokenRest_cons {shape : Shape} (h : shape ≠ .bytes 0) (v : Json) (vs : List Json) :
    UnbrokenRest shape (v :: vs) ↔ Unbroken shape.item v ∧ UnbrokenRest shape.rest vs := by
  rw [UnbrokenRest]
  exact h

/-- What a reader takes a member for. -/
def takeMember? (shape : Shape) (m : Option (List Char) × Json) : Option (Option (List Char) × Json) :=
  (take? (shape.member m.1) m.2).map fun w => (m.1, w)

theorem takeMembers?_eq (shape : Shape) (ms : List (Option (List Char) × Json)) :
    takeMembers? shape ms = ms.mapM shape.takeMember? := by
  induction ms with
  | nil => simp [takeMembers?]
  | cons m ms ih =>
    rw [takeMembers?, List.mapM_cons, ih, takeMember?]
    simp [Option.map_eq_bind, Option.bind_assoc]

theorem unbrokenMembers_iff {shape : Shape} {ms : List (Option (List Char) × Json)} :
    UnbrokenMembers shape ms ↔ ∀ m ∈ ms, Unbroken (shape.member m.1) m.2 := by
  induction ms with
  | nil => simp [UnbrokenMembers]
  | cons m ms ih => rw [UnbrokenMembers, ih, List.forall_mem_cons]

/-! ## Nothing in particular is expected -/

mutual

theorem take?_any : ∀ v : Json, take? .any v = some v
  | .null | .bool _ | .number _ | .string _ | .array [] => by simp [take?]
  | .array (v :: vs) => by simp [take?, item, rest, take?_any v, takeRest?_any vs]
  | .object ms => by simp [take?, takeMembers?_any ms]

theorem takeRest?_any : ∀ vs : List Json, takeRest? .any vs = some vs
  | [] => by simp [takeRest?]
  | v :: vs => by simp [takeRest?, item, rest, take?_any v, takeRest?_any vs]

theorem takeMembers?_any : ∀ ms : List (Option (List Char) × Json), takeMembers? .any ms = some ms
  | [] => by simp [takeMembers?]
  | (k, v) :: ms => by simp [takeMembers?, member, take?_any v, takeMembers?_any ms]

end

mutual

theorem unbroken_any : ∀ v : Json, Unbroken .any v
  | .null | .bool _ | .number _ | .string _ | .array [] => by simp [Unbroken]
  | .array (v :: vs) => by
    simp only [Unbroken, item, rest]
    exact ⟨unbroken_any v, unbrokenRest_any vs⟩
  | .object ms => by
    simp only [Unbroken]
    exact unbrokenMembers_any ms

theorem unbrokenRest_any : ∀ vs : List Json, UnbrokenRest .any vs
  | [] => by simp [UnbrokenRest]
  | v :: vs => (unbrokenRest_cons (by simp) v vs).2 ⟨unbroken_any v, unbrokenRest_any vs⟩

theorem unbrokenMembers_any : ∀ ms : List (Option (List Char) × Json), UnbrokenMembers .any ms
  | [] => by simp [UnbrokenMembers]
  | (k, v) :: ms => by
    simp only [UnbrokenMembers, member]
    exact ⟨unbroken_any v, unbrokenMembers_any ms⟩

end

end Shape

/-! ## Strings with a text -/

mutual

/-- Whether every string of the value has a text: no surrogate in it lacks its partner. -/
def IsTextual : Json → Prop
  | .null | .bool _ | .number _ => True
  | .string s => s ≠ none
  | .array vs => AreTextual vs
  | .object ms => MembersTextual ms

@[inherit_doc IsTextual]
def AreTextual : List Json → Prop
  | [] => True
  | v :: vs => IsTextual v ∧ AreTextual vs

@[inherit_doc IsTextual]
def MembersTextual : List (Option (List Char) × Json) → Prop
  | [] => True
  | (k, v) :: ms => k ≠ none ∧ IsTextual v ∧ MembersTextual ms

end

mutual

/-- Where every string has a text, each surplus string does, whatever is expected. -/
theorem unbroken_of_isTextual : ∀ {v : Json} {shape : Shape}, IsTextual v → shape.Unbroken v
  | .null, _, _ | .bool _, _, _ | .number _, _, _ | .string _, _, _ | .array [], _, _ => by
    simp [Shape.Unbroken]
  | .array (v :: vs), shape, hv => by
    simp only [IsTextual, AreTextual] at hv
    simp only [Shape.Unbroken]
    exact ⟨unbroken_of_isTextual hv.1, unbrokenRest_of_areTextual hv.2⟩
  | .object ms, shape, hv => by
    simp only [IsTextual] at hv
    simp only [Shape.Unbroken]
    exact unbrokenMembers_of_textual hv

theorem unbrokenRest_of_areTextual : ∀ {vs : List Json} {shape : Shape}, AreTextual vs →
    shape.UnbrokenRest vs
  | [], _, _ => by simp [Shape.UnbrokenRest]
  | v :: vs, shape, hvs => by
    simp only [AreTextual] at hvs
    by_cases hfull : shape = .bytes 0
    · subst hfull
      simp only [Shape.UnbrokenRest]
      rintro rfl
      simp only [IsTextual] at hvs
      exact hvs.1 rfl
    · rw [Shape.unbrokenRest_cons hfull]
      exact ⟨unbroken_of_isTextual hvs.1, unbrokenRest_of_areTextual hvs.2⟩

theorem unbrokenMembers_of_textual : ∀ {ms : List (Option (List Char) × Json)} {shape : Shape},
    MembersTextual ms → shape.UnbrokenMembers ms
  | [], _, _ => by simp [Shape.UnbrokenMembers]
  | (k, v) :: ms, shape, hms => by
    simp only [MembersTextual] at hms
    simp only [Shape.UnbrokenMembers]
    exact ⟨unbroken_of_isTextual hms.2.1, unbrokenMembers_of_textual hms.2.2⟩

end

/-! ## Reading tokens -/

namespace Reader

variable {r r' : Reader} {t : Token} {ts ts' : List Token} {o : Option Reader}

/-- Reading the tokens is smooth and leads to `o`. -/
structure Takes (r : Reader) (ts : List Token) (o : Option Reader) : Prop where
  smooth : r.Smooth ts
  foldlM_eq : ts.foldlM step? r = o

theorem Takes.nil : r.Takes [] (some r) := ⟨trivial, rfl⟩

theorem Takes.cons (hr : r.isSated = true → t ≠ .string none) (h : r.step? t = some r')
    (h' : r'.Takes ts o) : r.Takes (t :: ts) o where
  smooth := by
    refine ⟨hr, fun q hq => ?_⟩
    rw [h] at hq
    cases hq
    exact h'.smooth
  foldlM_eq := by
    rw [List.foldlM_cons, h]
    exact h'.foldlM_eq

/-- Once a token is refused, what follows does not matter. -/
theorem Takes.refused (hr : r.isSated = true → t ≠ .string none) (h : r.step? t = none) :
    r.Takes (t :: ts) none where
  smooth := by
    refine ⟨hr, fun q hq => ?_⟩
    rw [h] at hq
    cases hq
  foldlM_eq := by
    rw [List.foldlM_cons, h]
    rfl

theorem smooth_append (h : r.Smooth ts) (h' : ∀ r', ts.foldlM step? r = some r' → r'.Smooth ts') :
    r.Smooth (ts ++ ts') := by
  induction ts generalizing r with
  | nil => exact h' r rfl
  | cons t ts ih =>
    refine ⟨h.1, fun q hq => ih (h.2 q hq) fun r' hr' => h' r' ?_⟩
    rw [List.foldlM_cons, hq]
    exact hr'

/-- What follows is read from where the first tokens have led, if they have led anywhere. -/
theorem Takes.append {α : Type} {a : Option α} {f : α → Reader} {g : α → Option Reader}
    (h : r.Takes ts (a.map f)) (h' : ∀ x, a = some x → (f x).Takes ts' (g x)) :
    r.Takes (ts ++ ts') (a.bind g) where
  smooth := by
    refine smooth_append h.smooth fun r' hr' => ?_
    rw [h.foldlM_eq] at hr'
    obtain ⟨x, hx, rfl⟩ := Option.map_eq_some_iff.1 hr'
    exact (h' x hx).smooth
  foldlM_eq := by
    rw [List.foldlM_append, h.foldlM_eq]
    cases a with
    | none => rfl
    | some x => exact (h' x rfl).foldlM_eq

theorem nextItem_of_ne {shape : Shape} (h : shape.rest ≠ .bytes 0) (stack : List Frame)
    (before : List Json) : nextItem shape stack before =
      .value shape.rest.item (.array shape.rest before :: stack) := by
  unfold nextItem
  split
  · rename_i h'
    exact absurd h' h
  · rfl

/-! ## Reading values -/

/-- A surplus item is passed over if it may be, and then the array has to end. -/
theorem takes_surplus (stack : List Frame) (items : List Json) {v : Json} (hv : v ≠ .string none)
    (vs : List Json) : (surplus stack items).Takes (v.tokens ++ itemTokens vs)
      (if v.isPassed ∧ vs.isEmpty then some (.after stack (.array items)) else none) := by
  have hend : (closing stack items).Takes (itemTokens vs)
      (if vs.isEmpty then some (.after stack (.array items)) else none) := by
    cases vs with
    | nil => exact .cons nofun rfl .nil
    | cons w vs =>
      rw [itemTokens]
      exact .refused nofun rfl
  have hone : ∀ t : Token, t ≠ .rightBracket → t ≠ .string none → v.tokens = [t] →
      v.isPassed = t.isPassed → (surplus stack items).Takes (v.tokens ++ itemTokens vs)
        (if v.isPassed ∧ vs.isEmpty then some (.after stack (.array items)) else none) := by
    intro t hright hnone htokens hpassed
    have hstep : (surplus stack items).step? t =
        if t.isPassed then some (.closing stack items) else none := by
      cases t <;> first | rfl | exact absurd rfl hright
    rw [htokens, hpassed]
    by_cases ht : t.isPassed = true
    · rw [if_pos ht] at hstep
      simp only [ht, true_and]
      exact .cons (fun _ => hnone) hstep hend
    · rw [if_neg ht] at hstep
      rw [if_neg fun h => ht h.1]
      exact .refused (fun _ => hnone) hstep
  cases v with
  | null => exact hone .null nofun nofun (by simp [tokens]) rfl
  | bool b => exact hone (.bool b) nofun nofun (by simp [tokens]) rfl
  | number cs => exact hone (.number cs) nofun nofun (by simp [tokens]) rfl
  | string s =>
    refine hone (.string s) nofun (fun h => hv ?_) (by simp [tokens]) rfl
    cases h
    rfl
  | array ws =>
    have hfirst : ∃ ts, (Json.array ws).tokens = .leftBracket :: ts := by
      cases ws <;> exact ⟨_, by rw [tokens]⟩
    obtain ⟨ts, hts⟩ := hfirst
    rw [hts]
    exact .refused nofun rfl
  | object ms =>
    have hfirst : ∃ ts, (Json.object ms).tokens = .leftBrace :: ts := by
      cases ms <;> exact ⟨_, by rw [tokens]⟩
    obtain ⟨ts, hts⟩ := hfirst
    rw [hts]
    exact .refused nofun rfl

/-- The reader `r` begins a value of the shape `shape` inside the containers `stack`. -/
def Opens (r : Reader) (shape : Shape) (stack : List Frame) : Prop :=
  r.isSated = false ∧ ∀ t, t ≠ .rightBracket → r.step? t = begin shape stack t

theorem opens_value (shape : Shape) (stack : List Frame) :
    (Reader.value shape stack).Opens shape stack := ⟨rfl, fun _ _ => rfl⟩

theorem opens_firstItem (shape : Shape) (stack : List Frame) :
    (Reader.firstItem shape stack).Opens shape.item (.array shape [] :: stack) := by
  refine ⟨rfl, fun t ht => ?_⟩
  cases t <;> first | rfl | exact absurd rfl ht

/-- A value of one token. -/
theorem Opens.takes {shape : Shape} {stack : List Frame} {v : Json} (h : r.Opens shape stack)
    (ht : t ≠ .rightBracket) (hbegin : begin shape stack t = some (.after stack v)) :
    r.Takes [t] (some (.after stack v)) :=
  .cons (by simp [h.1]) ((h.2 t ht).trans hbegin) .nil

mutual

/-- A reader who begins a value reads it up to its end as what it takes it for. -/
theorem takes_tokens : ∀ {v : Json} {shape : Shape} {stack : List Frame} {r : Reader},
    shape.Unbroken v → r.Opens shape stack →
    r.Takes v.tokens ((shape.take? v).map (Reader.after stack))
  | .null, _, _, _, _, hr => by simpa [tokens, Shape.take?] using hr.takes (t := .null) nofun rfl
  | .bool b, _, _, _, _, hr => by simpa [tokens, Shape.take?] using hr.takes (t := .bool b) nofun rfl
  | .number cs, _, _, _, _, hr => by
    simpa [tokens, Shape.take?] using hr.takes (t := .number cs) nofun rfl
  | .string s, _, _, _, _, hr => by
    simpa [tokens, Shape.take?] using hr.takes (t := .string s) nofun rfl
  | .array [], shape, stack, r, _, ⟨hr, hb⟩ => by
    have hstep : r.step? .leftBracket = some (.firstItem shape stack) := hb _ nofun
    have hend : (Reader.firstItem shape stack).Takes [.rightBracket]
        (some (.after stack (.array []))) := .cons nofun rfl .nil
    simpa [tokens, Shape.take?] using Takes.cons (by simp [hr]) hstep hend
  | .array (v :: vs), shape, stack, r, hv, ⟨hr, hb⟩ => by
    simp only [Shape.Unbroken] at hv
    have hstep : r.step? .leftBracket = some (.firstItem shape stack) := hb _ nofun
    have hfirst := takes_tokens hv.1 (opens_firstItem shape stack)
    have hitems := hfirst.append fun w _ => takes_itemTokens [] w hv.2
    have htake : (shape.take? (.array (v :: vs))).map (Reader.after stack) =
        (shape.item.take? v).bind fun w => (shape.rest.takeRest? vs).map fun ws =>
          .after stack (.array ([].reverse ++ w :: ws)) := by
      rw [Shape.take?]
      cases shape.item.take? v with
      | none => rfl
      | some w => cases shape.rest.takeRest? vs <;> rfl
    rw [tokens, htake]
    exact .cons (by simp [hr]) hstep hitems
  | .object [], shape, stack, r, _, ⟨hr, hb⟩ => by
    have hstep : r.step? .leftBrace = some (.firstMember shape stack) := hb _ nofun
    have hend : (Reader.firstMember shape stack).Takes [.rightBrace]
        (some (.after stack (.object []))) := .cons nofun rfl .nil
    simpa [tokens, Shape.take?, Shape.takeMembers?] using Takes.cons (by simp [hr]) hstep hend
  | .object ((k, v) :: ms), shape, stack, r, hv, ⟨hr, hb⟩ => by
    simp only [Shape.Unbroken, Shape.UnbrokenMembers] at hv
    have hstep : r.step? .leftBrace = some (.firstMember shape stack) := hb _ nofun
    have hfirst := takes_tokens hv.1 (opens_value (shape.member k) (.object shape [] k :: stack))
    have hmembers := hfirst.append fun w _ => takes_memberTokens [] w hv.2
    have htake : (shape.take? (.object ((k, v) :: ms))).map (Reader.after stack) =
        ((shape.member k).take? v).bind fun w => (shape.takeMembers? ms).map fun ws =>
          .after stack (.object ([].reverse ++ (k, w) :: ws)) := by
      rw [Shape.take?, Shape.takeMembers?]
      cases (shape.member k).take? v with
      | none => rfl
      | some w => cases shape.takeMembers? ms <;> rfl
    rw [tokens, htake]
    exact .cons (by simp [hr]) hstep (.cons nofun rfl (.cons nofun rfl hmembers))

/-- The further items of an array lead behind the array. -/
theorem takes_itemTokens : ∀ {vs : List Json} {shape : Shape} {stack : List Frame}
    (before : List Json) (v : Json), shape.rest.UnbrokenRest vs →
    (Reader.after (.array shape before :: stack) v).Takes (itemTokens vs)
      ((shape.rest.takeRest? vs).map fun ws => .after stack (.array (before.reverse ++ v :: ws)))
  | [], shape, stack, before, v, _ => by
    have hstep : (Reader.after (.array shape before :: stack) v).step? .rightBracket =
        some (.after stack (.array (before.reverse ++ [v]))) := by simp [step?]
    have hend : (Reader.after (.array shape before :: stack) v).Takes [.rightBracket]
        (some (.after stack (.array (before.reverse ++ [v])))) := .cons nofun hstep .nil
    simpa [itemTokens, Shape.takeRest?] using hend
  | w :: vs, shape, stack, before, v, hvs => by
    have hcomma : (Reader.after (.array shape before :: stack) v).step? .comma =
        some (nextItem shape stack (v :: before)) := rfl
    by_cases hfull : shape.rest = .bytes 0
    · have hnext : nextItem shape stack (v :: before) = .surplus stack (v :: before).reverse := by
        simp only [nextItem, hfull]
      have hw : w ≠ .string none := by
        rw [hfull] at hvs
        simpa [Shape.UnbrokenRest] using hvs
      have hsurplus := takes_surplus stack (v :: before).reverse hw vs
      rw [itemTokens, hfull, Shape.takeRest?]
      refine .cons nofun (hcomma.trans (congrArg some hnext)) ?_
      by_cases hpassed : w.isPassed = true ∧ vs.isEmpty = true
      · rw [if_pos hpassed] at hsurplus ⊢
        simpa using hsurplus
      · rw [if_neg hpassed] at hsurplus ⊢
        exact hsurplus
    · rw [Shape.unbrokenRest_cons hfull] at hvs
      have hfirst := takes_tokens hvs.1
        (opens_value shape.rest.item (.array shape.rest (v :: before) :: stack))
      have hitems := hfirst.append fun u _ => takes_itemTokens (v :: before) u hvs.2
      have htake : ((shape.rest.takeRest? (w :: vs)).map fun ws =>
          Reader.after stack (.array (before.reverse ++ v :: ws))) =
          (shape.rest.item.take? w).bind fun u => (shape.rest.rest.takeRest? vs).map fun ws =>
            .after stack (.array ((v :: before).reverse ++ u :: ws)) := by
        rw [Shape.takeRest?_cons hfull]
        cases shape.rest.item.take? w <;> simp [Function.comp_def]
      rw [itemTokens, htake]
      exact .cons nofun (hcomma.trans (congrArg some (nextItem_of_ne hfull _ _))) hitems

/-- The further members of an object lead behind the object. -/
theorem takes_memberTokens : ∀ {ms : List (Option (List Char) × Json)} {shape : Shape}
    {stack : List Frame} (before : List (Option (List Char) × Json)) {k : Option (List Char)}
    (v : Json), shape.UnbrokenMembers ms →
    (Reader.after (.object shape before k :: stack) v).Takes (memberTokens ms)
      ((shape.takeMembers? ms).map fun ws =>
        .after stack (.object (before.reverse ++ (k, v) :: ws)))
  | [], shape, stack, before, k, v, _ => by
    have hstep : (Reader.after (.object shape before k :: stack) v).step? .rightBrace =
        some (.after stack (.object (before.reverse ++ [(k, v)]))) := by simp [step?]
    have hend : (Reader.after (.object shape before k :: stack) v).Takes [.rightBrace]
        (some (.after stack (.object (before.reverse ++ [(k, v)])))) := .cons nofun hstep .nil
    simpa [memberTokens, Shape.takeMembers?] using hend
  | (l, w) :: ms, shape, stack, before, k, v, hms => by
    simp only [Shape.UnbrokenMembers] at hms
    have hfirst := takes_tokens hms.1
      (opens_value (shape.member l) (.object shape ((k, v) :: before) l :: stack))
    have hmembers := hfirst.append fun u _ =>
      takes_memberTokens ((k, v) :: before) u hms.2
    have htake : ((shape.takeMembers? ((l, w) :: ms)).map fun ws =>
        Reader.after stack (.object (before.reverse ++ (k, v) :: ws))) =
        ((shape.member l).take? w).bind fun u => (shape.takeMembers? ms).map fun ws =>
          .after stack (.object (((k, v) :: before).reverse ++ (l, u) :: ws)) := by
      rw [Shape.takeMembers?]
      cases (shape.member l).take? w with
      | none => rfl
      | some u => cases shape.takeMembers? ms <;> simp
    rw [memberTokens, htake]
    exact .cons nofun rfl (.cons nofun rfl (.cons nofun rfl hmembers))

end

end Reader

/-- A text is read as what the reader takes the value for that the text denotes. -/
theorem Denotes.parse?_eq_take? {s : String} {v : Json} {shape : Shape} (h : Denotes s v)
    (hv : shape.Unbroken v) : parse? shape s = shape.take? v := by
  have htakes := Reader.takes_tokens hv (Reader.opens_value shape [])
  rw [h.parse?_eq htakes.smooth, htakes.foldlM_eq]
  cases shape.take? v <;> rfl

end ShieldedWallet.Json
