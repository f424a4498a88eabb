import Mathlib.Data.List.Perm.Basic
import ShieldedWallet.Proofs.Json.Documents
import ShieldedWallet.Proofs.Json.Expecting

/-!
# Records are read by their members

What is read from the text of an object depends on its members alone, and of those only on what stands
under the key of each field. So the members may be permuted and their keys may be escaped, a field that
stands there twice makes the record unreadable, and a member that belongs to no field is either refused
or counts for nothing, as the format says. The values of all fields in their order say the same as the
object.
-/

namespace ShieldedWallet

/-- The members of an object as they stand in a text. -/
abbrev Json.Members := List (Option (List Char) × Json)

open Json (Denotes Members Shape)

/-! ## Fields -/

namespace Field

variable {f : Field} {fs : List Field} {ms ms' : Members}

/-- The members under a key. -/
def under (key : List Char) (ms : Members) : Members := ms.filter fun m => m.1 = some key

theorem readMember?_missing (h : under f.name.toList ms = []) : f.readMember? ms = f.ifMissing := by
  unfold under at h
  simp only [readMember?, h]

theorem readMember?_single {m : Option (List Char) × Json} (h : under f.name.toList ms = [m]) :
    f.readMember? ms = f.codec.read? m.2 := by
  unfold under at h
  simp only [readMember?, h]

theorem readMember?_repeated (h : 2 ≤ (under f.name.toList ms).length) : f.readMember? ms = none := by
  unfold under at h
  unfold readMember?
  split
  · rename_i he
    simp [he] at h
  · rename_i he
    simp [he] at h
  · rfl

theorem readMember?_congr (h : (under f.name.toList ms).Perm (under f.name.toList ms')) :
    f.readMember? ms = f.readMember? ms' := by
  rcases hms : under f.name.toList ms with _ | ⟨m, _ | ⟨m', rest⟩⟩
  · rw [hms] at h
    rw [readMember?_missing hms, readMember?_missing h.nil_eq.symm]
  · rw [hms] at h
    rw [readMember?_single hms, readMember?_single h.singleton_eq.symm]
  · have htwice : 2 ≤ (under f.name.toList ms).length := by simp [hms]
    rw [readMember?_repeated htwice, readMember?_repeated (h.length_eq ▸ htwice)]

/-- The values of a record depend on what stands under the key of each field, in any order. -/
theorem readMembers?_congr (h : ∀ k ∈ keys fs, (under k ms).Perm (under k ms')) :
    readMembers? fs ms = readMembers? fs ms' := by
  induction fs with
  | nil => rfl
  | cons f fs ih =>
    rw [readMembers?, readMembers?, readMember?_congr (h _ (by simp [keys])),
      ih fun k hk => h k (List.mem_cons_of_mem _ hk)]

/-- A field that stands there twice cannot be read. -/
theorem readMembers?_repeated (hf : f ∈ fs) (h : 2 ≤ (under f.name.toList ms).length) :
    readMembers? fs ms = none := by
  induction fs with
  | nil => cases hf
  | cons g fs ih =>
    rw [readMembers?]
    rcases List.mem_cons.1 hf with rfl | hf
    · rw [readMember?_repeated h]
      rfl
    · rw [ih hf]
      cases g.readMember? ms <;> rfl

/-- The values `vs` as the members of the fields `fs`. -/
def named (fs : List Field) (vs : List Json) : Members :=
  List.zipWith (fun f v => (some f.name.toList, v)) fs vs

theorem under_named_eq_nil {vs : List Json} {key : List Char} (h : key ∉ keys fs) :
    under key (named fs vs) = [] := by
  refine List.filter_eq_nil_iff.2 fun m hm => ?_
  obtain ⟨i, hi, rfl⟩ := List.getElem_of_mem hm
  simp only [named, List.getElem_zipWith, Option.some.injEq, decide_eq_true_eq]
  rintro rfl
  exact h (List.mem_map.2 ⟨_, List.getElem_mem _, rfl⟩)

/-- The values of all fields say the same in an array and under the keys of the fields. -/
theorem readItems?_eq (hk : (keys fs).Nodup) {vs : List Json} (hlen : vs.length = fs.length) :
    readItems? fs vs = readMembers? fs (named fs vs) := by
  induction fs generalizing vs with
  | nil =>
    cases vs with
    | nil => rfl
    | cons v vs => cases hlen
  | cons f fs ih =>
    cases vs with
    | nil => cases hlen
    | cons v vs =>
      obtain ⟨hf, hk⟩ := List.nodup_cons.1 hk
      have hfirst : f.readMember? (named (f :: fs) (v :: vs)) = f.codec.read? v := by
        have hunder : under f.name.toList (named (f :: fs) (v :: vs)) = [(some f.name.toList, v)] := by
          have hrest : under f.name.toList (named fs vs) = [] := under_named_eq_nil hf
          simp only [under, named, List.zipWith_cons_cons, List.filter_cons] at hrest ⊢
          simp [hrest]
        exact readMember?_single hunder
      have hothers : readMembers? fs (named (f :: fs) (v :: vs)) = readMembers? fs (named fs vs) := by
        refine readMembers?_congr fun k hkm => ?_
        have hne : f.name.toList ≠ k := by
          rintro rfl
          exact hf hkm
        simp [under, named, hne]
      rw [readItems?, readMembers?, hfirst, hothers, ih hk (by simpa using hlen)]

end Field

/-! ## Members as they are taken -/

namespace Json.Shape

variable {shape : Shape} {m m' : Option (List Char) × Json} {ms ms' ws : Members}

theorem fst_of_takeMember? (h : shape.takeMember? m = some m') : m'.1 = m.1 := by
  obtain ⟨w, -, rfl⟩ := Option.map_eq_some_iff.1 h
  rfl

/-- The members of an object are taken one by one. -/
theorem takeMembers?_eq_ite (shape : Shape) (ms : Members) : shape.takeMembers? ms =
    if ∀ m ∈ ms, (shape.takeMember? m).isSome then some (ms.filterMap shape.takeMember?) else none := by
  rw [takeMembers?_eq]
  induction ms with
  | nil => simp
  | cons m ms ih =>
    rw [List.mapM_cons, ih]
    cases hm : shape.takeMember? m with
    | none => simp [hm]
    | some w =>
      by_cases hall : ∀ m ∈ ms, (shape.takeMember? m).isSome
      · have hcons : ∀ x ∈ m :: ms, (shape.takeMember? x).isSome := by
          rw [List.forall_mem_cons, hm]
          exact ⟨rfl, hall⟩
        rw [if_pos hall, if_pos hcons]
        simp [hm]
      · have hcons : ¬ ∀ x ∈ m :: ms, (shape.takeMember? x).isSome := fun h =>
          hall fun x hx => h x (List.mem_cons_of_mem _ hx)
        rw [if_neg hall, if_neg hcons]
        rfl

/-- The keys stay as they are. -/
theorem map_fst_of_takeMembers? (h : shape.takeMembers? ms = some ws) :
    ws.map Prod.fst = ms.map Prod.fst := by
  rw [takeMembers?_eq] at h
  induction ms generalizing ws with
  | nil =>
    obtain rfl : ws = [] := by simpa using h.symm
    rfl
  | cons m ms ih =>
    rw [List.mapM_cons] at h
    obtain ⟨w, hw, h⟩ := Option.bind_eq_some_iff.1 h
    obtain ⟨vs, hvs, h⟩ := Option.bind_eq_some_iff.1 h
    obtain rfl : w :: vs = ws := by simpa using h
    rw [List.map_cons, List.map_cons, ih hvs, fst_of_takeMember? hw]

theorem takeMembers?_perm (h : ms.Perm ms') (hws : shape.takeMembers? ms = some ws) :
    ∃ ws', shape.takeMembers? ms' = some ws' ∧ ws.Perm ws' := by
  rw [takeMembers?_eq_ite] at hws
  split at hws
  case isTrue hall =>
    cases hws
    have hall' : ∀ m ∈ ms', (shape.takeMember? m).isSome := fun m hm => hall m (h.mem_iff.2 hm)
    exact ⟨_, by rw [takeMembers?_eq_ite, if_pos hall'], h.filterMap _⟩
  case isFalse => cases hws

theorem takeMembers?_append (ms extra : Members) : shape.takeMembers? (ms ++ extra) =
    (shape.takeMembers? ms).bind fun ws => (shape.takeMembers? extra).map (ws ++ ·) := by
  rw [takeMembers?_eq, takeMembers?_eq, takeMembers?_eq, List.mapM_append]
  cases ms.mapM shape.takeMember? <;> cases extra.mapM shape.takeMember? <;> rfl

theorem unbrokenMembers_perm (h : ms.Perm ms') (hms : shape.UnbrokenMembers ms) :
    shape.UnbrokenMembers ms' := by
  rw [unbrokenMembers_iff] at hms ⊢
  exact fun m hm => hms m (h.mem_iff.2 hm)

end Json.Shape

namespace RecordFormat

variable {α : Type} {r : RecordFormat α} {s s' : String} {ms ms' extra : Members} {vs : List Json}

/-- The member belongs to no field. -/
def IsUndeclared (r : RecordFormat α) (m : Option (List Char) × Json) : Prop :=
  ∀ f ∈ r.fields, m.1 ≠ some f.name.toList

/-- Nothing in particular is expected of a member that belongs to no field. -/
theorem shape_undeclared {m : Option (List Char) × Json} (h : r.IsUndeclared m) :
    r.codec.shape.member m.1 = .any := by
  have hnone : (r.fields.map fun f => (f.name, f.codec.shape)).find?
      (fun g => m.1 = some g.1.toList) = none := by
    refine List.find?_eq_none.2 fun g hg => ?_
    obtain ⟨f, hf, rfl⟩ := List.mem_map.1 hg
    simpa using h f hf
  simp only [codec, Shape.member, hnone]
  rfl

/-! ## What is read from the members -/

/-- The record that is read from the members of an object. -/
def ofMembers? (r : RecordFormat α) (ms : Members) : Option α :=
  (r.codec.shape.takeMembers? ms).bind fun ws => r.codec.read? (.object ws)

theorem parse?_object (h : Denotes s (.object ms)) (hms : r.codec.shape.Unbroken (.object ms)) :
    r.codec.parse? s = r.ofMembers? ms := by
  rw [Codec.parse?, h.parse?_eq_take? hms, Shape.take?, ofMembers?]
  cases r.codec.shape.takeMembers? ms <;> rfl

theorem read?_object (r : RecordFormat α) (ws : Members) : r.codec.read? (.object ws) =
    if ws.all fun m => r.admits m.1 then (Field.readMembers? r.fields ws).map r.ofValues
    else none := rfl

/-- The order of the members does not matter. -/
theorem ofMembers?_perm (h : ms.Perm ms') : r.ofMembers? ms = r.ofMembers? ms' := by
  unfold ofMembers?
  cases hws : r.codec.shape.takeMembers? ms with
  | some ws =>
    obtain ⟨ws', hws', hperm⟩ := Shape.takeMembers?_perm h hws
    have hread : Field.readMembers? r.fields ws = Field.readMembers? r.fields ws' :=
      Field.readMembers?_congr fun k _ => hperm.filter _
    rw [hws', Option.bind_some, Option.bind_some, read?_object, read?_object, hread, hperm.all_eq]
  | none =>
    cases hws' : r.codec.shape.takeMembers? ms' with
    | none => rfl
    | some ws' =>
      obtain ⟨ws, hsome, -⟩ := Shape.takeMembers?_perm h.symm hws'
      rw [hws] at hsome
      cases hsome

/-- A field that stands there twice makes the record unreadable. -/
theorem ofMembers?_repeated {f : Field} (hf : f ∈ r.fields)
    (h : 2 ≤ (ms.map Prod.fst).count (some f.name.toList)) : r.ofMembers? ms = none := by
  unfold ofMembers?
  cases hws : r.codec.shape.takeMembers? ms with
  | none => rfl
  | some ws =>
    have htwice : 2 ≤ (Field.under f.name.toList ws).length := by
      rw [← Shape.map_fst_of_takeMembers? hws, List.count, List.countP_map,
        List.countP_eq_length_filter] at h
      refine Nat.le_trans h (Nat.le_of_eq (congrArg List.length (List.filter_congr fun m _ => ?_)))
      simp [Bool.beq_eq_decide_eq]
    rw [Option.bind_some, read?_object, Field.readMembers?_repeated hf htwice]
    split <;> rfl

/-- A closed format refuses a member that belongs to no field. -/
theorem ofMembers?_undeclared (hr : r.closed = true) {m : Option (List Char) × Json} (hm : m ∈ ms)
    (hu : r.IsUndeclared m) : r.ofMembers? ms = none := by
  unfold ofMembers?
  cases hws : r.codec.shape.takeMembers? ms with
  | none => rfl
  | some ws =>
    have hkey : m.1 ∈ ws.map Prod.fst := by
      rw [Shape.map_fst_of_takeMembers? hws]
      exact List.mem_map_of_mem hm
    obtain ⟨w, hw, he⟩ := List.mem_map.1 hkey
    have hadmits : r.admits w.1 = false := by
      rw [he]
      unfold admits
      split
      · rfl
      · rename_i key hk
        simp only [hr, Bool.not_true, Bool.false_or, List.any_eq_false, decide_eq_true_eq]
        intro f hf hname
        exact hu f hf (by rw [hk, hname])
    have hall : ws.all (fun m => r.admits m.1) ≠ true := by
      intro h
      rw [List.all_eq_true.1 h w hw] at hadmits
      cases hadmits
    rw [Option.bind_some, read?_object, if_neg hall]

/-- To an open format, members that belong to no field count for nothing. -/
theorem ofMembers?_append (hr : r.closed = false)
    (hextra : ∀ m ∈ extra, r.IsUndeclared m ∧ m.1 ≠ none) :
    r.ofMembers? (ms ++ extra) = r.ofMembers? ms := by
  have htaken : r.codec.shape.takeMembers? extra = some extra := by
    have hone : ∀ m ∈ extra, r.codec.shape.takeMember? m = some m := by
      intro m hm
      rw [Shape.takeMember?, shape_undeclared (hextra m hm).1, Shape.take?_any]
      rfl
    rw [Shape.takeMembers?_eq_ite, if_pos fun m hm => by rw [hone m hm]; rfl]
    exact congrArg some ((List.filterMap_congr hone).trans List.filterMap_some)
  have hadmits : extra.all (fun m => r.admits m.1) = true := by
    refine List.all_eq_true.2 fun m hm => ?_
    obtain ⟨key, hkey⟩ := Option.ne_none_iff_exists'.1 (hextra m hm).2
    simp [admits, hkey, hr]
  unfold ofMembers?
  rw [Shape.takeMembers?_append, htaken]
  cases r.codec.shape.takeMembers? ms with
  | none => rfl
  | some ws =>
    have hread : Field.readMembers? r.fields (ws ++ extra) = Field.readMembers? r.fields ws := by
      refine Field.readMembers?_congr fun k hk => ?_
      obtain ⟨f, hf, rfl⟩ := List.mem_map.1 hk
      have hnone : Field.under f.name.toList extra = [] := by
        refine List.filter_eq_nil_iff.2 fun m hm => ?_
        simpa using (hextra m hm).1 f hf
      unfold Field.under at hnone ⊢
      rw [List.filter_append, hnone, List.append_nil]
    simp only [Option.bind_some, Option.map_some, read?_object, List.all_append, hadmits,
      Bool.and_true, hread]

/-! ## Arrays -/

section Arrays

variable {fs : List Field} {ws : List Json}

/-- What is expected of a record with the given fields. -/
def expected (fs : List Field) : Shape := .record (fs.map fun f => (f.name, f.codec.shape))

theorem expected_ne_bytes (fs : List Field) : expected fs ≠ .bytes 0 := nofun

theorem length_of_takeRest? (hlen : vs.length = fs.length)
    (h : (expected fs).takeRest? vs = some ws) : ws.length = fs.length := by
  induction fs generalizing vs ws with
  | nil =>
    obtain rfl : vs = [] := List.length_eq_zero_iff.1 hlen
    rw [Shape.takeRest?] at h
    cases h
    rfl
  | cons f fs ih =>
    cases vs with
    | nil => cases hlen
    | cons v vs =>
      rw [Shape.takeRest?_cons (expected_ne_bytes _)] at h
      obtain ⟨w, -, h⟩ := Option.bind_eq_some_iff.1 h
      obtain ⟨us, hus, rfl⟩ := Option.map_eq_some_iff.1 h
      simpa using ih (by simpa using hlen) hus

/-- The items of an array are taken as the members of the fields are. -/
theorem takeMembers?_named {shape : Shape}
    (hf : ∀ f ∈ fs, shape.member (some f.name.toList) = f.codec.shape)
    (hlen : vs.length = fs.length) : shape.takeMembers? (Field.named fs vs) =
      ((expected fs).takeRest? vs).map (Field.named fs) := by
  induction fs generalizing vs with
  | nil =>
    obtain rfl : vs = [] := List.length_eq_zero_iff.1 hlen
    simp [Field.named, Shape.takeMembers?, Shape.takeRest?]
  | cons f fs ih =>
    cases vs with
    | nil => cases hlen
    | cons v vs =>
      have hrest := ih (fun g hg => hf g (List.mem_cons_of_mem _ hg)) (by simpa using hlen)
      have hnamed : Field.named (f :: fs) (v :: vs) =
          (some f.name.toList, v) :: Field.named fs vs := rfl
      rw [hnamed, Shape.takeMembers?, hrest, Shape.takeRest?_cons (expected_ne_bytes _),
        hf f List.mem_cons_self]
      show _ = Option.map _ ((Shape.take? f.codec.shape v).bind fun w =>
        ((expected fs).takeRest? vs).map (w :: ·))
      cases f.codec.shape.take? v with
      | none => rfl
      | some w => cases (expected fs).takeRest? vs <;> rfl

theorem unbrokenRest_of_named {shape : Shape}
    (hf : ∀ f ∈ fs, shape.member (some f.name.toList) = f.codec.shape)
    (hlen : vs.length = fs.length) (h : shape.UnbrokenMembers (Field.named fs vs)) :
    (expected fs).UnbrokenRest vs := by
  induction fs generalizing vs with
  | nil =>
    obtain rfl : vs = [] := List.length_eq_zero_iff.1 hlen
    simp [Shape.UnbrokenRest]
  | cons f fs ih =>
    cases vs with
    | nil => cases hlen
    | cons v vs =>
      have hcons : shape.UnbrokenMembers ((some f.name.toList, v) :: Field.named fs vs) := h
      rw [Shape.UnbrokenMembers, hf f List.mem_cons_self] at hcons
      rw [Shape.unbrokenRest_cons (expected_ne_bytes _)]
      exact ⟨hcons.1, ih (fun g hg => hf g (List.mem_cons_of_mem _ hg)) (by simpa using hlen)
        hcons.2⟩

end Arrays

theorem take?_array {shape : Shape} (h : shape ≠ .bytes 0) (vs : List Json) :
    shape.take? (.array vs) = (shape.takeRest? vs).map .array := by
  cases vs with
  | nil => simp [Shape.take?, Shape.takeRest?]
  | cons v vs =>
    rw [Shape.take?, Shape.takeRest?_cons h]
    cases shape.item.take? v <;> simp [Option.map_eq_bind, Option.bind_assoc]

theorem unbroken_array {shape : Shape} (h : shape ≠ .bytes 0) (hvs : shape.UnbrokenRest vs) :
    shape.Unbroken (.array vs) := by
  cases vs with
  | nil => simp [Shape.Unbroken]
  | cons v vs =>
    rw [Shape.unbrokenRest_cons h] at hvs
    simpa only [Shape.Unbroken] using hvs

/-- The array of the values of all fields says the same as the object. -/
theorem parse?_array (hk : (Field.keys r.fields).Nodup) (hlen : vs.length = r.fields.length)
    (h : Denotes s (.array vs))
    (hvs : r.codec.shape.UnbrokenMembers (Field.named r.fields vs)) :
    r.codec.parse? s = r.ofMembers? (Field.named r.fields vs) := by
  have hf : ∀ f ∈ r.fields, r.codec.shape.member (some f.name.toList) = f.codec.shape :=
    fun f hf => shape_member hk hf
  have hrest : r.codec.shape.UnbrokenRest vs := unbrokenRest_of_named hf hlen hvs
  have hne : r.codec.shape ≠ .bytes 0 := expected_ne_bytes r.fields
  rw [Codec.parse?, h.parse?_eq_take? (unbroken_array hne hrest), take?_array hne, ofMembers?,
    takeMembers?_named hf hlen]
  cases htaken : r.codec.shape.takeRest? vs with
  | none =>
    rw [show (expected r.fields).takeRest? vs = none from htaken]
    rfl
  | some ws =>
    rw [show (expected r.fields).takeRest? vs = some ws from htaken]
    have hadmits : (Field.named r.fields ws).all (fun m => r.admits m.1) = true := by
      refine List.all_eq_true.2 fun m hm => ?_
      obtain ⟨i, hi, rfl⟩ := List.getElem_of_mem hm
      simp only [Field.named, List.getElem_zipWith, admits, Bool.or_eq_true, List.any_eq_true,
        decide_eq_true_eq]
      exact .inr ⟨_, List.getElem_mem _, rfl⟩
    simp only [Option.map_some, Option.bind_some, read?_object, hadmits, if_true]
    rw [← Field.readItems?_eq hk (length_of_takeRest? hlen htaken)]
    rfl

/-! ## Texts of a record -/

/-- What the format reads from the text of an object depends on the members of the object, and of those
on what belongs to its fields. JSON is strict about surrogates: one needs its partner in every string, also
in a string behind the last byte of a byte string (`Shape.Unbroken`), but not in what is skipped. -/
structure ReadsMembers (r : RecordFormat α) : Prop where
  /-- Neither the order of the members nor their spelling matters. -/
  permuted : ∀ {s s' : String} {ms ms' : Members}, Denotes s (.object ms) → Denotes s' (.object ms') →
    r.codec.shape.Unbroken (.object ms) → ms.Perm ms' → r.codec.parse? s = r.codec.parse? s'
  /-- No field may be repeated. -/
  repeated : ∀ {s : String} {ms : Members}, Denotes s (.object ms) →
    r.codec.shape.Unbroken (.object ms) → ∀ f ∈ r.fields,
    2 ≤ (ms.map Prod.fst).count (some f.name.toList) → r.codec.parse? s = none
  /-- If the format is closed, no other member may be there. -/
  refused : r.closed = true → ∀ {s : String} {ms : Members}, Denotes s (.object ms) →
    r.codec.shape.Unbroken (.object ms) → ∀ m ∈ ms, r.IsUndeclared m → r.codec.parse? s = none
  /-- If the format is open, other members with any values may be there, anywhere and repeatedly. -/
  skipped : r.closed = false → ∀ {s s' : String} {ms ms' extra : Members}, Denotes s (.object ms) →
    Denotes s' (.object ms') → r.codec.shape.Unbroken (.object ms) → ms'.Perm (ms ++ extra) →
    (∀ m ∈ extra, r.IsUndeclared m ∧ m.1 ≠ none) → r.codec.parse? s' = r.codec.parse? s
  /-- The values of all fields in their order say the same as an object with these members. -/
  listed : ∀ {s s' : String} {ms : Members} {vs : List Json}, Denotes s (.object ms) →
    Denotes s' (.array vs) → r.codec.shape.Unbroken (.object ms) → vs.length = r.fields.length →
    ms.Perm (Field.named r.fields vs) → r.codec.parse? s' = r.codec.parse? s

theorem readsMembers (hk : (Field.keys r.fields).Nodup) : r.ReadsMembers where
  permuted {s s' ms ms'} h h' hms hperm := by
    have hms' : r.codec.shape.Unbroken (.object ms') := by
      simp only [Shape.Unbroken] at hms ⊢
      exact Shape.unbrokenMembers_perm hperm hms
    rw [parse?_object h hms, parse?_object h' hms', ofMembers?_perm hperm]
  repeated h hms f hf htwice := by rw [parse?_object h hms, ofMembers?_repeated hf htwice]
  refused hr _ _ h hms m hm hu := by rw [parse?_object h hms, ofMembers?_undeclared hr hm hu]
  skipped hr {s s' ms ms' extra} h h' hms hperm hextra := by
    have hms' : r.codec.shape.Unbroken (.object ms') := by
      simp only [Shape.Unbroken] at hms ⊢
      refine Shape.unbrokenMembers_perm hperm.symm (Shape.unbrokenMembers_iff.2 fun m hm => ?_)
      rcases List.mem_append.1 hm with hm | hm
      · exact Shape.unbrokenMembers_iff.1 hms m hm
      · rw [shape_undeclared (hextra m hm).1]
        exact Shape.unbroken_any m.2
    rw [parse?_object h hms, parse?_object h' hms', ofMembers?_perm hperm,
      ofMembers?_append hr hextra]
  listed {s s' ms vs} h h' hms hlen hperm := by
    have hnamed : r.codec.shape.UnbrokenMembers (Field.named r.fields vs) := by
      simp only [Shape.Unbroken] at hms
      exact Shape.unbrokenMembers_perm hperm hms
    rw [parse?_array hk hlen h' hnamed, parse?_object h hms, ofMembers?_perm hperm]

end RecordFormat

/-! ## The types of records -/

namespace DocumentType

/-- The format of the documents of the type, if they are records. -/
def format? : (d : DocumentType) → Option (RecordFormat d.Value)
  | .event => some NoteEvent.format
  | .transaction => some Transaction.format
  | .settings => some Settings.format
  | .record => some AccountRecord.format
  | .relayRequest => some RelayRequest.format
  | .relayReceipt => some RelayReceipt.format
  | .relayQuote => some RelayQuote.format
  | .version | .movement => none

theorem nodup_of_format? {d : DocumentType} {r : RecordFormat d.Value} (h : d.format? = some r) :
    (Field.keys r.fields).Nodup := by
  cases d with
  | event => cases h; exact NoteEvent.sound_format.nodup
  | transaction => cases h; exact Transaction.sound_format.nodup
  | settings => cases h; exact Settings.sound_format.nodup
  | record => cases h; exact AccountRecord.sound_format.nodup
  | relayRequest => cases h; exact RelayRequest.sound_format.nodup
  | relayReceipt => cases h; exact RelayReceipt.sound_format.nodup
  | relayQuote => cases h; exact RelayQuote.sound_format.nodup
  | version => cases h
  | movement => cases h

/-- Every record is read by its members. The formats are closed, but for the two of what a relayer
answers. -/
theorem records_read_by_members {d : DocumentType} {r : RecordFormat d.Value}
    (h : d.format? = some r) :
    d.codec = r.codec ∧ (r.closed = false ↔ d = .relayReceipt ∨ d = .relayQuote) ∧
      r.ReadsMembers := by
  refine ⟨?_, ?_, RecordFormat.readsMembers (nodup_of_format? h)⟩
  · cases d <;> cases h <;> rfl
  · cases d <;> cases h <;> simp [NoteEvent.format, Transaction.format, Settings.format,
      AccountRecord.format, RelayRequest.format, RelayReceipt.format, RelayQuote.format]

/-- A quote may be an object with the members in any order, or the array of its values. -/
theorem records_read_by_members_quote :
    format? .relayQuote = some RelayQuote.format ∧
      RelayQuote.format.codec.parse? "[\"1\",\"2\",\"3\"]" = RelayQuote.format.codec.parse?
        "\x7b\"total_fee\":\"3\", \"relay_fee\":\"2\", \"base_fee\":\"1\"\x7d" := by
  have htext : ∀ s : String, s.toList.all Json.isPlain = true →
      (Json.Token.string (some s.toList)).Spells ('"' :: s.toList ++ ['"']) := fun s =>
    Json.Token.Spells.plain
  have hobject : Denotes "\x7b\"total_fee\":\"3\", \"relay_fee\":\"2\", \"base_fee\":\"1\"\x7d"
      (.record [("total_fee", .text "3"), ("relay_fee", .text "2"), ("base_fee", .text "1")]) := by
    have hcomma {ts cs} (h : Json.Spells ts cs) : Json.Spells (.comma :: ts) (',' :: ' ' :: cs) :=
      .mark (by simp [Json.marks]) (.blank rfl h)
    have hcolon {ts cs} (h : Json.Spells ts cs) : Json.Spells (.colon :: ts) (':' :: cs) :=
      .mark (by simp [Json.marks]) h
    have hend : Json.Spells [.rightBrace] ['\x7d'] := .mark (by simp [Json.marks]) .nil
    exact .mark (c := '\x7b') (by simp [Json.marks])
      (.token (htext "total_fee" (by decide)) (hcolon (.token (htext "3" (by decide))
        (hcomma (.token (htext "relay_fee" (by decide)) (hcolon (.token (htext "2" (by decide))
          (hcomma (.token (htext "base_fee" (by decide)) (hcolon (.token (htext "1" (by decide))
            hend)))))))))))
  have harray : Denotes "[\"1\",\"2\",\"3\"]" (.array [.text "1", .text "2", .text "3"]) := by
    have hcomma {ts cs} (h : Json.Spells ts cs) : Json.Spells (.comma :: ts) (',' :: cs) :=
      .mark (by simp [Json.marks]) h
    have hend : Json.Spells [.rightBracket] [']'] := .mark (by simp [Json.marks]) .nil
    exact .mark (c := '[') (by simp [Json.marks]) (.token (htext "1" (by decide))
      (hcomma (.token (htext "2" (by decide)) (hcomma (.token (htext "3" (by decide)) hend)))))
  obtain ⟨-, -, hread⟩ := records_read_by_members (d := .relayQuote) (r := RelayQuote.format) rfl
  refine ⟨rfl, hread.listed hobject harray (Json.unbroken_of_isTextual ?_) rfl ?_⟩
  · simp [Json.text, Json.IsTextual, Json.MembersTextual]
  · exact (List.reverse_perm _).symm

end DocumentType

end ShieldedWallet
