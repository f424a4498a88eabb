import ShieldedWallet.Proofs.Simulation.Proving

/-!
# What a digest is a digest of

The label, the elements and the trailing bytes can be read off the bytes that are hashed. So equal
digests are digests of the same, unless two different byte strings have one digest; and a proof is the
proof of one statement only.
-/

namespace ShieldedWallet.Simulation

variable {label label' : String} {xs ys : List Scalar} {extra extra' : Bytes}

theorem pathBytes_injective (hlen : xs.length = ys.length) (h : Note.pathBytes xs = Note.pathBytes ys) :
    xs = ys := by
  have hread := readNodes?_pathBytes xs
  rw [h, hlen, readNodes?_pathBytes ys] at hread
  exact (Option.some.inj hread).symm

/-- The lengths that are hashed with the label and the elements are exact. -/
structure Measured (label : String) (xs : List Scalar) : Prop where
  label_lt : label.toUTF8.data.toList.length < Bytes.count 8
  elements_lt : xs.length < Bytes.count 8

/-- Nothing is lost in the bytes that are hashed. -/
theorem digestBytes_injective (hx : Measured label xs) (hy : Measured label' ys)
    (h : digestBytes label xs extra = digestBytes label' ys extra') :
    label = label' ∧ xs = ys ∧ extra = extra' := by
  simp only [digestBytes, List.append_assoc] at h
  obtain ⟨hsize, h⟩ := List.append_inj h (by simp)
  have hlength := Bytes.ofNatLE_injective hx.label_lt hy.label_lt hsize
  obtain ⟨hname, h⟩ := List.append_inj h hlength
  obtain ⟨hcount, h⟩ := List.append_inj h (by simp)
  have helements := Bytes.ofNatLE_injective hx.elements_lt hy.elements_lt hcount
  have hwidth : (Note.pathBytes xs).length = (Note.pathBytes ys).length := by
    rw [length_pathBytes, length_pathBytes, helements]
  obtain ⟨hnodes, hextra⟩ := List.append_inj h hwidth
  have hutf8 : label.toUTF8 = label'.toUTF8 := ByteArray.ext (Array.toList_inj.1 hname)
  exact ⟨String.toByteArray_inj.1 hutf8, pathBytes_injective helements hnodes, hextra⟩

/-- Two different byte strings have one digest, as field elements. -/
def Collide (bs bs' : Bytes) : Prop :=
  bs ≠ bs' ∧ Scalar.ofBytesLE (Blake2s.digest bs) = Scalar.ofBytesLE (Blake2s.digest bs')

/-- Equal digests are digests of the same, or collide. -/
theorem eq_or_collide (hx : Measured label xs) (hy : Measured label' ys)
    (h : digest label xs extra = digest label' ys extra') :
    (label = label' ∧ xs = ys ∧ extra = extra') ∨
      Collide (digestBytes label xs extra) (digestBytes label' ys extra') := by
  by_cases hbytes : digestBytes label xs extra = digestBytes label' ys extra'
  · exact .inl (digestBytes_injective hx hy hbytes)
  · exact .inr ⟨hbytes, h⟩

/-! ## Proofs -/

variable {m : Movement} {s s' : Statement m}

/-- The bytes whose digest is the proof of a statement. -/
def proofBytes (m : Movement) (s : Statement m) : Bytes :=
  digestBytes (circuitLabel m) (elements m s) "proof".toUTF8.data.toList

theorem elements_injective (h : elements m s = elements m s') : s = s' := by
  cases m with
  | opening =>
    obtain ⟨note, idHash, deposit⟩ := s
    obtain ⟨note', idHash', deposit'⟩ := s'
    simp only [elements, List.cons.injEq, and_true] at h
    obtain ⟨rfl, rfl, rfl⟩ := h
    rfl
  | deposit =>
    obtain ⟨root, nullifierHash, note, value⟩ := s
    obtain ⟨root', nullifierHash', note', value'⟩ := s'
    simp only [elements, List.cons.injEq, and_true] at h
    obtain ⟨rfl, rfl, rfl, rfl⟩ := h
    rfl
  | withdrawal =>
    obtain ⟨⟨root, nullifierHash, note, value⟩, commitment⟩ := s
    obtain ⟨⟨root', nullifierHash', note', value'⟩, commitment'⟩ := s'
    simp only [elements, List.cons.injEq, and_true] at h
    obtain ⟨rfl, rfl, rfl, rfl, rfl⟩ := h
    rfl

theorem measured_elements (m : Movement) (s : Statement m) : Measured (circuitLabel m) (elements m s) := by
  cases m <;> exact ⟨by decide, by simp [elements, Bytes.count]⟩

/-- Equal proofs prove one statement, or their bytes collide. -/
theorem proof_eq_or_collide (h : proof m s = proof m s') :
    s = s' ∨ Collide (proofBytes m s) (proofBytes m s') := by
  have hdigest := Scalar.toBytes_injective (Vector.toList_inj.1 h)
  rcases eq_or_collide (measured_elements m s) (measured_elements m s') hdigest with
    ⟨-, helements, -⟩ | hcollide
  · exact .inl (elements_injective helements)
  · exact .inr hcollide

end ShieldedWallet.Simulation
