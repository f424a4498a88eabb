import ShieldedWallet.Proofs.Json.Printed

/-!
# Documents of records

A record format whose fields are sound gives back every record from its document. The members of the
written object are found by their names, so the names have to differ, and a value for which no member
is written has to be the one that a missing member stands for.
-/

namespace ShieldedWallet

open Json (Fits FitsMembers IsLiteral NumberPart)

/-! ## Numbers -/

theorem integer_toDigits {n : Nat} (hn : 0 < n) :
    ∃ c ds, Nat.toDigits 10 n = c :: ds ∧ NumberPart.first? c = some .integer ∧
      ds.foldlM NumberPart.next? .integer = some .integer := by
  induction n using Nat.strongRecOn with
  | ind n ih =>
    rw [Nat.toDigits_eq_if (by decide)]
    split
    case isTrue hlt =>
      refine ⟨n.digitChar, [], rfl, ?_, rfl⟩
      have hd : ∀ d, d < 10 → 0 < d → NumberPart.first? d.digitChar = some .integer := by decide
      exact hd n hlt hn
    case isFalse hle =>
      obtain ⟨c, ds, he, hc, hds⟩ := ih (n / 10) (by omega) (by omega)
      refine ⟨c, ds ++ [(n % 10).digitChar], by rw [he]; rfl, hc, ?_⟩
      have hd : ∀ d, d < 10 → NumberPart.next? .integer d.digitChar = some .integer := by decide
      simp [List.foldlM_append, hds, hd (n % 10) (by omega)]

theorem isLiteral_toDigits (n : Nat) : IsLiteral (Nat.toDigits 10 n) := by
  rcases Nat.eq_zero_or_pos n with rfl | hn
  · exact ⟨'0', [], .zero, .zero, by simp, rfl, rfl, rfl⟩
  · obtain ⟨c, ds, he, hc, hds⟩ := integer_toDigits hn
    exact ⟨c, ds, .integer, .integer, he, hc, hds, rfl⟩

namespace Codec

variable {α : Type}

theorem natural?_nat (n : Nat) : natural? (.nat n) = some n := by
  have hall : (Nat.toDigits 10 n).all Char.isDigit = true :=
    List.all_eq_true.2 fun c hc => Nat.isDigit_of_mem_toDigits (by decide) (by decide) hc
  simp [natural?, Json.nat, hall, Numeral.digits?_toDigits (r := 10) n (by decide) (by decide)]

/-! ## Sound codecs -/

/-- Reading gives back what was written, also from a text. -/
structure Sound (c : Codec α) : Prop where
  faithful : c.Faithful
  legible : c.Legible

/-- A notation that reads what it prints is sound. -/
theorem sound_notated {print : α → String} {read? : String → Option α}
    (h : ∀ a, read? (print a) = some a) : (notated print read?).Sound where
  faithful a := by simp [notated, h]
  legible a := by simp [notated, Json.text, Fits]

/-- A codec that writes a value as a number and reads it back from the number is sound. -/
theorem sound_of_natural {c : Codec α} (number : α → Nat) (ofNumber? : Nat → Option α)
    (hw : ∀ a, c.write a = .nat (number a)) (hr : ∀ j, c.read? j = (natural? j).bind ofNumber?)
    (h : ∀ a, ofNumber? (number a) = some a) : c.Sound where
  faithful a := by
    rw [hw, hr, natural?_nat]
    exact h a
  legible a := by
    rw [hw, Json.nat, Fits]
    exact isLiteral_toDigits _

theorem sound_word32 : word32.Sound := by
  refine sound_of_natural UInt32.toNat _ (fun _ => rfl) (fun _ => rfl) fun n => ?_
  have hn : n.toNat < UInt32.size := n.toNat_lt
  simp [hn]

theorem sound_word64 : word64.Sound := by
  refine sound_of_natural UInt64.toNat _ (fun _ => rfl) (fun _ => rfl) fun n => ?_
  have hn : n.toNat < UInt64.size := n.toNat_lt
  simp [hn]

theorem sound_byte : byte.Sound := by
  refine sound_of_natural UInt8.toNat _ (fun _ => rfl) (fun _ => rfl) fun n => ?_
  have hn : n.toNat < UInt8.size := n.toNat_lt
  simp [hn]

theorem sound_text : text.Sound where
  faithful s := Json.text?_text s
  legible s := by simp [text, Json.text, Fits]

/-- An option is read back if the value itself is never written as `null`. -/
theorem Sound.optional {c : Codec α} (hc : c.Sound) (hn : ∀ a, c.write a ≠ .null) :
    (Codec.optional c).Sound where
  faithful a := by
    cases a with
    | none => rfl
    | some a =>
      have hr : (Codec.optional c).read? (c.write a) = (c.read? (c.write a)).map some := by
        simp only [Codec.optional]
        split
        case h_1 h => exact absurd h (hn a)
        case h_2 => rfl
      exact hr.trans (by rw [hc.faithful a]; rfl)
  legible a := by
    cases a with
    | none => simp [Codec.optional, Fits]
    | some a => exact hc.legible a

end Codec

/-! ## Records -/

namespace Field

/-- The codec of a field is sound, and a value without a member is the one that a missing member
stands for. -/
structure Sound (f : Field) : Prop where
  codec : f.codec.Sound
  hidden : ∀ v, f.isHidden v = true → f.ifMissing = some v

/-- A field whose values are all written is sound if its codec is. -/
theorem Sound.of_codec {f : Field} (hc : f.codec.Sound) (hh : ∀ v, f.isHidden v = false) :
    f.Sound where
  codec := hc
  hidden v h := by
    rw [hh v] at h
    cases h

def keys (fs : List Field) : List (List Char) := fs.map fun f => f.name.toList

/-- The members of a written object as they are read. -/
def written (fs : List Field) (vs : Values fs) : List (Option (List Char) × Json) :=
  (members fs vs).map fun m => (some m.1.toList, m.2)

theorem written_cons (f : Field) (fs : List Field) (v : f.Value) (vs : Values fs) :
    written (f :: fs) (v, vs) =
      (if f.isHidden v then [] else [(some f.name.toList, f.codec.write v)]) ++ written fs vs := by
  simp only [written, members]
  split <;> rfl

theorem key_mem_of_mem_written {fs : List Field} {vs : Values fs}
    {m : Option (List Char) × Json} (hm : m ∈ written fs vs) : ∃ k ∈ keys fs, m.1 = some k := by
  induction fs with
  | nil => simp [written, members] at hm
  | cons f fs ih =>
    obtain ⟨v, vs⟩ := vs
    rw [written_cons] at hm
    rcases List.mem_append.1 hm with hm | hm
    · split at hm
      · simp at hm
      · rw [List.mem_singleton.1 hm]
        exact ⟨f.name.toList, by simp [keys], rfl⟩
    · obtain ⟨k, hk, he⟩ := ih hm
      exact ⟨k, by simp [keys] at hk ⊢; exact .inr hk, he⟩

theorem filter_written_eq_nil {fs : List Field} (vs : Values fs) {k : List Char}
    (hk : k ∉ keys fs) : (written fs vs).filter (fun m => m.1 = some k) = [] := by
  refine List.filter_eq_nil_iff.2 fun m hm => ?_
  obtain ⟨l, hl, he⟩ := key_mem_of_mem_written hm
  rw [he]
  simp only [Option.some.injEq, decide_eq_true_eq]
  rintro rfl
  exact hk hl

/-- A field is read from the members under its key. -/
theorem readMember?_written {f : Field} (hf : f.Sound) (v : f.Value)
    {ms : List (Option (List Char) × Json)}
    (hms : ms.filter (fun m => m.1 = some f.name.toList) =
      if f.isHidden v then [] else [(some f.name.toList, f.codec.write v)]) :
    f.readMember? ms = some v := by
  by_cases hv : f.isHidden v = true
  · simp only [readMember?, hms, if_pos hv]
    exact hf.hidden v hv
  · simp only [readMember?, hms, if_neg hv]
    exact hf.codec.faithful v

/-- The values are read from any members that have under each key what was written under it. -/
theorem readMembers?_written {fs : List Field} (hfs : ∀ f ∈ fs, f.Sound) (hk : (keys fs).Nodup)
    (vs : Values fs) {ms : List (Option (List Char) × Json)}
    (hms : ∀ k ∈ keys fs, ms.filter (fun m => m.1 = some k) =
      (written fs vs).filter (fun m => m.1 = some k)) :
    readMembers? fs ms = some vs := by
  induction fs with
  | nil => rfl
  | cons f fs ih =>
    obtain ⟨v, vs⟩ := vs
    obtain ⟨hf, hk⟩ := List.nodup_cons.1 hk
    have hv : f.readMember? ms = some v := by
      refine readMember?_written (hfs f (by simp)) v ?_
      rw [hms _ (by simp [keys]), written_cons, List.filter_append, filter_written_eq_nil vs hf]
      split <;> simp
    have hvs : readMembers? fs ms = some vs := by
      refine ih (fun g hg => hfs g (by simp [hg])) hk vs fun k hkm => ?_
      have hne : f.name.toList ≠ k := by
        rintro rfl
        exact hf hkm
      rw [hms k (List.mem_cons_of_mem _ hkm), written_cons, List.filter_append]
      split <;> simp [hne]
    simp [readMembers?, hv, hvs]

/-- The written members fit the shape of the record. -/
theorem fitsMembers_written {fs gs : List Field} (hfs : ∀ f ∈ fs, f.Sound) (vs : Values fs)
    (hg : ∀ f ∈ fs, Json.Shape.member (some f.name.toList)
      (.record (gs.map fun g => (g.name, g.codec.shape))) = f.codec.shape) :
    FitsMembers (.record (gs.map fun g => (g.name, g.codec.shape))) (written fs vs) := by
  induction fs with
  | nil => simp [written, members, FitsMembers]
  | cons f fs ih =>
    obtain ⟨v, vs⟩ := vs
    have hvs := ih (fun g hg => hfs g (by simp [hg])) vs fun g h => hg g (by simp [h])
    rw [written_cons]
    split
    · exact hvs
    · simp only [List.singleton_append, FitsMembers]
      refine ⟨rfl, ?_, hvs⟩
      rw [hg f (by simp)]
      exact (hfs f (by simp)).codec.legible v

end Field

namespace RecordFormat

variable {α : Type}

/-- The fields are sound and have different names, and a record is made up by its values. -/
structure Sound (r : RecordFormat α) : Prop where
  fields : ∀ f ∈ r.fields, f.Sound
  nodup : (Field.keys r.fields).Nodup
  ofValues_toValues : ∀ a, r.ofValues (r.toValues a) = a

theorem shape_member {fs : List Field} (hk : (Field.keys fs).Nodup) {f : Field} (hf : f ∈ fs) :
    Json.Shape.member (some f.name.toList) (.record (fs.map fun g => (g.name, g.codec.shape))) =
      f.codec.shape := by
  induction fs with
  | nil => simp at hf
  | cons g fs ih =>
    obtain ⟨hg, hk⟩ := List.nodup_cons.1 hk
    rcases List.mem_cons.1 hf with rfl | hf
    · simp [Json.Shape.member]
    · have hne : f.name.toList ≠ g.name.toList := by
        intro he
        exact hg (List.mem_map.2 ⟨f, hf, he⟩)
      have := ih hk hf
      simp only [Json.Shape.member, List.map_cons, List.find?_cons] at this ⊢
      simpa [hne] using this

/-- A sound format gives back every record from its document. -/
theorem Sound.codec {r : RecordFormat α} (hr : r.Sound) : r.codec.Sound where
  faithful a := by
    have hw : r.codec.write a = .object (Field.written r.fields (r.toValues a)) := rfl
    have ha : (Field.written r.fields (r.toValues a)).all (fun m => r.admits m.1) = true := by
      refine List.all_eq_true.2 fun m hm => ?_
      obtain ⟨k, hk, he⟩ := Field.key_mem_of_mem_written hm
      obtain ⟨f, hf, rfl⟩ := List.mem_map.1 hk
      rw [he]
      simp only [admits, Bool.or_eq_true, List.any_eq_true, decide_eq_true_eq]
      exact .inr ⟨f, hf, rfl⟩
    rw [hw]
    simp only [RecordFormat.codec, ha, if_true]
    rw [Field.readMembers?_written hr.fields hr.nodup (r.toValues a) fun _ _ => rfl]
    simp [hr.ofValues_toValues a]
  legible a := by
    have hw : r.codec.write a = .object (Field.written r.fields (r.toValues a)) := rfl
    rw [hw, Json.Fits]
    exact Field.fitsMembers_written hr.fields (r.toValues a) fun f hf => shape_member hr.nodup hf

end RecordFormat

end ShieldedWallet
