import ShieldedWallet.Account.Version
import ShieldedWallet.Proofs.Text.Digits

/-!
# The texts of contract versions

A version is written as `0x` and six hexadecimal digits, and read from them in either case. The reader
of the digits takes a mark of its own in front of them, so there are texts with two marks too. Two texts
are of one version exactly if their digits are the same but for the case.
-/

namespace ShieldedWallet.ContractVersion

variable {s t : String} {v : ContractVersion} {mark ds ds' : List Char}

/-- The text is `0x`, then possibly another mark, and then the six digits `ds`. -/
structure Spells (s : String) (mark ds : List Char) : Prop where
  text_eq : s.toList = '0' :: 'x' :: (mark ++ ds)
  mark_mem : mark ∈ Hex.marks
  length_eq : ds.length = 6
  isDigit : ∀ c ∈ ds, Hex.IsDigit c

/-- The text of a version with the digits `ds`, which may be of either case. -/
def printed (ds : List Char) : String := String.ofList ('0' :: 'x' :: ds.map Char.toLower)

theorem printed_inj : printed ds = printed ds' ↔ ds.map Char.toLower = ds'.map Char.toLower := by
  simp [printed, String.ofList_inj]

theorem text_eq_printed_iff :
    v.text = printed ds ↔ ds.map Char.toLower = Hex.digits v.bytes.toList := by
  simp [text, Hex.prefixed, printed, String.ofList_inj, eq_comm]

theorem ofText?_eq_some_iff_readFixed? : ofText? s = some v ↔
    ∃ cs, s.toList = '0' :: 'x' :: cs ∧ Hex.readFixed? 3 cs = some v.bytes := by
  unfold ofText?
  split
  · rename_i cs hs
    rw [Option.map_eq_some_iff]
    constructor
    · rintro ⟨bytes, hread, rfl⟩
      exact ⟨cs, hs, hread⟩
    · rintro ⟨cs', hs', hread⟩
      obtain rfl : cs = cs' := by simpa [hs] using hs'
      exact ⟨v.bytes, hread, rfl⟩
  · rename_i hother
    constructor
    · rintro ⟨⟩
    · rintro ⟨cs, hs, -⟩
      exact absurd hs (hother cs)

/-- A text is a version if it is spelled by digits, which are printed for the version in lower case. -/
theorem ofText?_eq_some_iff :
    ofText? s = some v ↔ ∃ mark ds, Spells s mark ds ∧ v.text = printed ds := by
  rw [ofText?_eq_some_iff_readFixed?]
  constructor
  · rintro ⟨cs, hs, hread⟩
    obtain ⟨mark, ds, hmark, rfl, hlen, hdigits, hlower⟩ := Hex.readFixed?_eq_some_iff.1 hread
    exact ⟨mark, ds, ⟨hs, hmark, hlen, hdigits⟩, text_eq_printed_iff.2 hlower⟩
  · rintro ⟨mark, ds, hspells, hprinted⟩
    refine ⟨mark ++ ds, hspells.text_eq, Hex.readFixed?_eq_some_iff.2 ⟨mark, ds, ?_⟩⟩
    exact ⟨hspells.mark_mem, rfl, hspells.length_eq, hspells.isDigit,
      text_eq_printed_iff.1 hprinted⟩

theorem Spells.exists_version (h : Spells s mark ds) :
    ∃ v, ofText? s = some v ∧ v.text = printed ds := by
  obtain ⟨bytes, hlower⟩ := Hex.exists_digits_eq (k := 3) h.isDigit h.length_eq
  have hprinted : text ⟨bytes⟩ = printed ds := text_eq_printed_iff.2 hlower
  exact ⟨⟨bytes⟩, ofText?_eq_some_iff.2 ⟨mark, ds, h, hprinted⟩, hprinted⟩

theorem exists_version_iff : (∃ v, ofText? s = some v) ↔ ∃ mark ds, Spells s mark ds := by
  constructor
  · rintro ⟨v, hv⟩
    obtain ⟨mark, ds, hspells, -⟩ := ofText?_eq_some_iff.1 hv
    exact ⟨mark, ds, hspells⟩
  · rintro ⟨mark, ds, hspells⟩
    obtain ⟨v, hv, -⟩ := hspells.exists_version
    exact ⟨v, hv⟩

/-- Texts of one version have the same digits but for their case. -/
theorem exists_common_version_iff : (∃ v, ofText? s = some v ∧ ofText? t = some v) ↔
    ∃ mark ds mark' ds', Spells s mark ds ∧ Spells t mark' ds' ∧
      ds.map Char.toLower = ds'.map Char.toLower := by
  constructor
  · rintro ⟨v, hs, ht⟩
    obtain ⟨mark, ds, hspells, hprinted⟩ := ofText?_eq_some_iff.1 hs
    obtain ⟨mark', ds', hspells', hprinted'⟩ := ofText?_eq_some_iff.1 ht
    exact ⟨mark, ds, mark', ds', hspells, hspells', printed_inj.1 (hprinted ▸ hprinted')⟩
  · rintro ⟨mark, ds, mark', ds', hspells, hspells', hlower⟩
    obtain ⟨v, hv, hprinted⟩ := hspells.exists_version
    rw [printed_inj.2 hlower] at hprinted
    exact ⟨v, hv, ofText?_eq_some_iff.2 ⟨mark', ds', hspells', hprinted⟩⟩

/-- A text with another mark is too long to be one without. -/
theorem Spells.mark_eq_nil (h : Spells s mark ds) (h' : Spells s [] ds') : mark = [] := by
  have hlen : ('0' :: 'x' :: (mark ++ ds)).length = ('0' :: 'x' :: ds').length := by
    rw [← h.text_eq, h'.text_eq, List.nil_append]
  simp only [List.length_cons, List.length_append, h.length_eq, h'.length_eq] at hlen
  exact List.eq_nil_of_length_eq_zero (by omega)

/-- A text is a version exactly if it is `0x` and six hexadecimal digits of either case, possibly with
another mark in between, and the version is printed with these digits in lower case and without that
mark. Two texts are of one version exactly if they differ in the case of their digits and in the other
mark at most. So it is the texts with another mark, and no others, that are taken for versions although
they are more than `0x` and six digits. -/
theorem versions_spelled (s t : String) :
    ((∃ v, ofText? s = some v) ↔ ∃ mark ds, Spells s mark ds) ∧
      (∀ v, ofText? s = some v ↔ ∃ mark ds, Spells s mark ds ∧ v.text = printed ds) ∧
      ((∃ v, ofText? s = some v ∧ ofText? t = some v) ↔ ∃ mark ds mark' ds',
        Spells s mark ds ∧ Spells t mark' ds' ∧ ds.map Char.toLower = ds'.map Char.toLower) ∧
      (((∃ v, ofText? s = some v) ↔ ∃ ds, Spells s [] ds) ↔
        ¬ ∃ mark ds, mark ≠ [] ∧ Spells s mark ds) := by
  refine ⟨exists_version_iff, fun v => ofText?_eq_some_iff, exists_common_version_iff, ?_⟩
  rw [exists_version_iff]
  constructor
  · rintro hplain ⟨mark, ds, hmark, hspells⟩
    obtain ⟨ds', hspells'⟩ := hplain.1 ⟨mark, ds, hspells⟩
    exact hmark (hspells.mark_eq_nil hspells')
  · intro hother
    constructor
    · rintro ⟨mark, ds, hspells⟩
      by_cases hmark : mark = []
      · exact ⟨ds, hmark ▸ hspells⟩
      · exact absurd ⟨mark, ds, hmark, hspells⟩ hother
    · rintro ⟨ds, hspells⟩
      exact ⟨[], ds, hspells⟩

/-- The other mark is a text's own: it is not printed. -/
example : ofText? "0x0X00000a" = ofText? "0x00000A" ∧
    (ofText? "0x0x000001").map text = some "0x000001" := by
  decide +kernel

end ShieldedWallet.ContractVersion
