import ShieldedWallet.Proofs.Json.Documents
import ShieldedWallet.Settings.CommandLine

/-!
# Settings are read off the command line

A command line gives options one after the other, each with its value attached or behind it. Scanning
it comes down to adding the options one by one, in whichever way they are spelled
(`Scan.settle_entries`). So the settings are found in any order of the options, those that are left out
having their defaults, and an option that is given twice is refused wherever it stands.
-/

namespace ShieldedWallet.Settings

/-! ## Command lines -/

/-- An option on a command line. -/
structure Entry where
  key : Key
  value : String
  /-- Whether the value is attached to the option. Otherwise it is an argument of its own. -/
  attached : Bool
deriving DecidableEq

namespace Entry

/-- The arguments that give an option. -/
def arguments (e : Entry) : List String :=
  if e.attached then ["--" ++ e.key.name ++ "=" ++ e.value] else ["--" ++ e.key.name, e.value]

/-- Only an attached value may begin with a dash. -/
def IsReadable (e : Entry) : Prop := e.attached = true ∨ e.value.toList.head? ≠ some '-'

instance (e : Entry) : Decidable e.IsReadable := inferInstanceAs (Decidable (_ ∨ _))

end Entry

/-- The text of a setting. -/
def value? (s : Settings) : Key → Option String
  | .chainId => some (Numeral.decimal s.chainId.toNat)
  | .contractVersion => some s.version.text
  | .storageKey => some s.storageKey
  | .relayerUrl => s.relayerUrl

/-- Whether a setting is the one that is assumed if the option is not given. -/
def IsDefault (s : Settings) : Key → Prop
  | .chainId => False
  | .contractVersion => s.version = .supported
  | .storageKey => s.storageKey = defaultStorageKey
  | .relayerUrl => s.relayerUrl = none

/-- Whether a text has the form that an option needs. -/
def Key.Accepts (v : String) : Key → Prop
  | .chainId => (Numeral.word64? v).isSome
  | .contractVersion => (ContractVersion.ofText? v).isSome
  | .storageKey | .relayerUrl => True

/-! ## Arguments -/

namespace Argument

theorem ofString_attached (k : Key) (v : String) :
    ofString ("--" ++ k.name ++ "=" ++ v) = .long k.name.toList (some v) := by
  have hcs : ("--" ++ k.name ++ "=" ++ v).toList = '-' :: '-' :: (k.name.toList ++ '=' :: v.toList) := by
    simp
  have hsplit : splitAttached (k.name.toList ++ '=' :: v.toList) = (k.name.toList, some v) := by
    cases k <;> simp [splitAttached, Key.name]
  rw [ofString, hcs]
  cases k <;> simp_all [Key.name]

theorem ofString_option (k : Key) : ofString ("--" ++ k.name) = .long k.name.toList none := by
  cases k <;> decide +kernel

theorem ofString_plain {v : String} (hv : v.toList.head? ≠ some '-') : ofString v = .plain v := by
  unfold ofString
  split
  · rename_i h
    simp [h] at hv
  · rename_i h
    simp [h] at hv
  · rename_i h
    simp [h] at hv
  · rfl

end Argument

theorem Key.ofName?_name (k : Key) : Key.ofName? k.name.toList = some k := by
  cases k <;> decide +kernel

/-! ## Scanning -/

/-- Adds the options one by one. -/
def Given.addAll (g : Given) (es : List Entry) : Except Refusal Given :=
  es.foldlM (fun g e => g.add e.key e.value) g

namespace Scan

/-- An attached value is added at once, after the pending option has been settled. -/
theorem step_attached {s : Scan} (hs : s.ended = false) (k : Key) (v : String) :
    s.step ("--" ++ k.name ++ "=" ++ v) =
      s.settle >>= fun g => (g.add k v).map fun g => { given := g } := by
  simp only [step, hs, Bool.false_eq_true, if_false, Argument.ofString_attached, Key.ofName?_name]
  rfl

theorem step_option {s : Scan} (hs : s.ended = false) (k : Key) :
    s.step ("--" ++ k.name) = s.settle.map fun g => { given := g, pending := some (k, none) } := by
  simp only [step, hs, Bool.false_eq_true, if_false, Argument.ofString_option, Key.ofName?_name]
  rfl

theorem step_value {g : Given} {k : Key} {v : String} (hv : v.toList.head? ≠ some '-') :
    step { given := g, pending := some (k, none) } v =
      .ok { given := g, pending := some (k, some v) } := by
  simp [step, Argument.ofString_plain hv]

/-- However the options are spelled, scanning them adds them to what has been given before. -/
theorem settle_entries {es : List Entry} (hes : ∀ e ∈ es, e.IsReadable) {s : Scan}
    (hs : s.ended = false) :
    ((es.flatMap Entry.arguments).foldlM step s >>= settle) = s.settle >>= fun g => g.addAll es := by
  induction es generalizing s with
  | nil =>
    show s.settle = _
    cases s.settle <;> rfl
  | cons e es ih =>
    have ih' := fun {s'} => ih (s := s') fun e' he' => hes e' (List.mem_cons_of_mem _ he')
    rw [List.flatMap_cons, List.foldlM_append]
    by_cases ha : e.attached = true
    · have hstep : e.arguments.foldlM step s =
          s.settle >>= fun g => (g.add e.key e.value).map fun g => { given := g } := by
        rw [Entry.arguments, if_pos ha, List.foldlM_cons, step_attached hs]
        exact bind_pure _
      rw [hstep]
      cases hg : s.settle with
      | error f => rfl
      | ok g =>
        show ((g.add e.key e.value).map _ >>= _) >>= settle =
          g.add e.key e.value >>= fun g => g.addAll es
        cases hadd : g.add e.key e.value with
        | error f => rfl
        | ok g' => exact ih' rfl
    · have hv : e.value.toList.head? ≠ some '-' := (hes e List.mem_cons_self).resolve_left ha
      have hstep : e.arguments.foldlM step s =
          s.settle.map fun g => { given := g, pending := some (e.key, some e.value) } := by
        rw [Entry.arguments, if_neg ha, List.foldlM_cons, step_option hs]
        cases s.settle with
        | error f => rfl
        | ok g =>
          show [e.value].foldlM step { given := g, pending := some (e.key, none) } = _
          rw [List.foldlM_cons, step_value hv]
          rfl
      rw [hstep]
      cases hg : s.settle with
      | error f => rfl
      | ok g => exact ih' rfl

end Scan

/-- The settings of a command line are those of its options. -/
theorem ofArguments_entries {es : List Entry} (hes : ∀ e ∈ es, e.IsReadable) :
    ofArguments (es.flatMap Entry.arguments) = Given.addAll {} es >>= Given.settings := by
  have hscan := Scan.settle_entries hes (s := {}) rfl
  have hargs : ofArguments (es.flatMap Entry.arguments) =
      ((es.flatMap Entry.arguments).foldlM Scan.step {} >>= Scan.settle) >>= Given.settings := by
    rw [bind_assoc]
    rfl
  rw [hargs, hscan]
  rfl

/-! ## Options given once -/

namespace Given

/-- The settings `s` as far as the options `P` have been given. -/
def ofSettings (s : Settings) (P : Key → Bool) : Given where
  chainId := if P .chainId then some s.chainId else none
  version := if P .contractVersion then some s.version else none
  storageKey := if P .storageKey then some s.storageKey else none
  relayerUrl := if P .relayerUrl then s.relayerUrl else none

/-- An option that has not been given is added with the text of its setting. -/
theorem add_ofSettings {s : Settings} {P : Key → Bool} {k : Key} {v : String}
    (hv : s.value? k = some v) (hk : P k = false) :
    (ofSettings s P).add k v = .ok (ofSettings s fun j => P j || j = k) := by
  cases k with
  | chainId =>
    obtain rfl : Numeral.decimal s.chainId.toNat = v := by simpa [value?] using hv
    simp [add, has, set?, ofSettings, hk, Numeral.word64?_decimal]
  | contractVersion =>
    obtain rfl : s.version.text = v := by simpa [value?] using hv
    simp [add, has, set?, ofSettings, hk, ContractVersion.ofText?_text]
  | storageKey =>
    obtain rfl : s.storageKey = v := by simpa [value?] using hv
    simp [add, has, set?, ofSettings, hk]
  | relayerUrl =>
    have hv : s.relayerUrl = some v := hv
    simp [add, has, set?, ofSettings, hk, hv]

theorem addAll_ofSettings {s : Settings} {P : Key → Bool} {es : List Entry}
    (hv : ∀ e ∈ es, s.value? e.key = some e.value) (hnodup : (es.map Entry.key).Nodup)
    (hP : ∀ e ∈ es, P e.key = false) :
    (ofSettings s P).addAll es = .ok (ofSettings s fun k => P k || k ∈ es.map Entry.key) := by
  induction es generalizing P with
  | nil =>
    have hP' : (fun k => P k || decide (k ∈ ([] : List Entry).map Entry.key)) = P := by simp
    rw [hP']
    rfl
  | cons e es ih =>
    obtain ⟨hne, hnodup'⟩ := List.nodup_cons.1 hnodup
    have hadd := add_ofSettings (hv e List.mem_cons_self) (hP e List.mem_cons_self)
    have hrest := ih (P := fun j => P j || j = e.key) (fun e' he' => hv e' (List.mem_cons_of_mem _ he'))
      hnodup' fun e' he' => by
        have hkey : e'.key ≠ e.key := fun h => hne (h ▸ List.mem_map_of_mem he')
        simp [hP e' (List.mem_cons_of_mem _ he'), hkey]
    have hP' : (fun k => (P k || decide (k = e.key)) || decide (k ∈ es.map Entry.key)) =
        fun k => P k || decide (k ∈ (e :: es).map Entry.key) := by
      funext k
      simp only [List.map_cons, List.mem_cons, Bool.decide_or, Bool.or_assoc]
    rw [addAll, List.foldlM_cons, hadd, ← hP']
    exact hrest

/-- The settings are complete once every option has been given that has not its default. -/
theorem settings_ofSettings {s : Settings} {P : Key → Bool}
    (hP : ∀ k, P k = true ∨ s.IsDefault k) : (ofSettings s P).settings = .ok s := by
  have hdefault : ∀ {α : Type} {k : Key} {a d : α}, P k = true ∨ a = d →
      (if P k then some a else none).getD d = a := by
    rintro α k a d (h | rfl)
    · simp [h]
    · split <;> rfl
  have hchain : P .chainId = true := (hP .chainId).resolve_right id
  have hversion := hdefault (hP .contractVersion)
  have hkey := hdefault (hP .storageKey)
  have hurl : (if P .relayerUrl then s.relayerUrl else none) = s.relayerUrl := by
    rcases hP .relayerUrl with h | h
    · simp [h]
    · rw [show s.relayerUrl = none from h, ite_self]
  simp only [settings, ofSettings, hchain, if_true, hversion, hkey, hurl]

/-! ## Options given twice -/

theorem has_of_set? {g g' : Given} {k : Key} {v : String} (h : g.set? k v = some g') (j : Key) :
    g'.has j = (g.has j || j = k) := by
  cases k with
  | chainId =>
    obtain ⟨n, -, rfl⟩ := Option.map_eq_some_iff.1 h
    cases j <;> simp [has]
  | contractVersion =>
    obtain ⟨n, -, rfl⟩ := Option.map_eq_some_iff.1 h
    cases j <;> simp [has]
  | storageKey =>
    obtain rfl := Option.some.inj h
    cases j <;> simp [has]
  | relayerUrl =>
    obtain rfl := Option.some.inj h
    cases j <;> simp [has]

theorem isSome_set? {g : Given} {k : Key} {v : String} (h : k.Accepts v) : (g.set? k v).isSome := by
  cases k with
  | chainId => simpa [set?, Key.Accepts] using h
  | contractVersion => simpa [set?, Key.Accepts] using h
  | storageKey => rfl
  | relayerUrl => rfl

/-- Values that are all accepted are added until the first option that has been given before. -/
theorem addAll_repeated {g : Given} {es : List Entry} (hes : ∀ e ∈ es, e.key.Accepts e.value)
    (h : (∃ e ∈ es, g.has e.key) ∨ ¬ (es.map Entry.key).Nodup) :
    g.addAll es = .error .repeatedOption := by
  induction es generalizing g with
  | nil => simp at h
  | cons e es ih =>
    rw [addAll, List.foldlM_cons]
    by_cases hg : g.has e.key = true
    · simp [add, hg]
      rfl
    · obtain ⟨g', hg'⟩ := Option.isSome_iff_exists.1 (isSome_set? (g := g) (hes e List.mem_cons_self))
      have hadd : g.add e.key e.value = .ok g' := by simp [add, hg, hg']
      rw [hadd]
      refine ih (fun e' he' => hes e' (List.mem_cons_of_mem _ he')) ?_
      rcases h with ⟨e', he', hhas⟩ | hrepeated
      · rcases List.mem_cons.1 he' with rfl | he'
        · exact absurd hhas hg
        · exact .inl ⟨e', he', by simp [has_of_set? hg', hhas]⟩
      · by_cases hmem : e.key ∈ es.map Entry.key
        · obtain ⟨e', he', hkey⟩ := List.mem_map.1 hmem
          exact .inl ⟨e', he', by simp [has_of_set? hg', hkey]⟩
        · exact .inr fun hnodup => hrepeated (List.nodup_cons.2 ⟨hmem, hnodup⟩)

end Given

theorem accepts_of_value? {s : Settings} {k : Key} {v : String} (h : s.value? k = some v) :
    k.Accepts v := by
  cases k with
  | chainId =>
    obtain rfl : Numeral.decimal s.chainId.toNat = v := by simpa [value?] using h
    simp [Key.Accepts, Numeral.word64?_decimal]
  | contractVersion =>
    obtain rfl : s.version.text = v := by simpa [value?] using h
    simp [Key.Accepts, ContractVersion.ofText?_text]
  | storageKey => trivial
  | relayerUrl => trivial

/-- Settings are read off any command line that gives their values, each at most once, in any order
and in any spelling, and that leaves out only what has its default. One more occurrence of an option,
with any value that the option accepts, is refused as a repetition wherever it stands. -/
theorem settings_in_any_order (s : Settings) (es : List Entry)
    (hvalues : ∀ e ∈ es, s.value? e.key = some e.value) (honce : (es.map Entry.key).Nodup)
    (hcomplete : ∀ k, k ∈ es.map Entry.key ∨ s.IsDefault k) (hreadable : ∀ e ∈ es, e.IsReadable) :
    ofArguments (es.flatMap Entry.arguments) = .ok s ∧
      ∀ before after e, es = before ++ after → e.key ∈ es.map Entry.key → e.key.Accepts e.value →
        e.IsReadable →
        ofArguments ((before ++ e :: after).flatMap Entry.arguments) = .error .repeatedOption := by
  constructor
  · have hadd := Given.addAll_ofSettings (P := fun _ => false) hvalues honce fun _ _ => rfl
    rw [ofArguments_entries hreadable]
    show (Given.ofSettings s fun _ => false).addAll es >>= Given.settings = .ok s
    rw [hadd]
    refine Given.settings_ofSettings fun k => ?_
    simpa using hcomplete k
  · rintro before after e rfl hmem haccepts he
    have hperm : (before ++ e :: after).Perm (e :: (before ++ after)) := List.perm_middle
    have hall : ∀ {Q : Entry → Prop}, Q e → (∀ e' ∈ before ++ after, Q e') →
        ∀ e' ∈ before ++ e :: after, Q e' := fun hQ h e' he' => by
      rcases List.mem_cons.1 (hperm.mem_iff.1 he') with rfl | he'
      · exact hQ
      · exact h e' he'
    have hrepeated : ¬ ((before ++ e :: after).map Entry.key).Nodup := by
      rw [(hperm.map Entry.key).nodup_iff, List.map_cons, List.nodup_cons]
      exact fun h => h.1 hmem
    rw [ofArguments_entries (hall he hreadable), Given.addAll_repeated
      (hall haccepts fun e' he' => accepts_of_value? (hvalues e' he')) (.inr hrepeated)]
    rfl

/-- Settings with an empty key and an address that looks like an option, given in another order, with
one value behind its option and the version left out. A second key in front of them is refused. -/
theorem settings_in_any_order_shuffled :
    ofArguments ["--relayer-url=--chain-id=7", "--chain-id", "5", "--storage-key="] =
        .ok ⟨5, .supported, "", some "--chain-id=7"⟩ ∧
      ofArguments ["--storage-key", "x", "--relayer-url=--chain-id=7", "--chain-id", "5",
        "--storage-key="] = .error .repeatedOption := by
  have h := settings_in_any_order ⟨5, .supported, "", some "--chain-id=7"⟩
    [⟨.relayerUrl, "--chain-id=7", true⟩, ⟨.chainId, "5", false⟩, ⟨.storageKey, "", true⟩]
    (by decide +kernel) (by decide +kernel) (fun k => by
      cases k
      case contractVersion => exact .inr rfl
      all_goals exact .inl (by decide)) (by decide +kernel)
  exact ⟨h.1, h.2 [] _ ⟨.storageKey, "x", false⟩ rfl (by decide) trivial (by decide +kernel)⟩

end ShieldedWallet.Settings
