import PackedBits.Session
import PackedBits.Proofs.Bits.Bytes

/-!
# The byte form is exact

A byte string is the byte form of some bitmap of `bits` flags just if it has the right length and
no bit set past the last flag (`IsByteForm`). Decoding accepts these and no others, and on them it
is the inverse of encoding.

Both directions are shown bit by bit. Encoding cuts words into bytes and drops some of them,
decoding gathers bytes in groups of eight, the last one of which may be short; neither moves a bit.

## Main statements

* `toBytes_packed`, `packed_toBytes` — the two directions
* `ofBytes_inverts_toBytes` — both of them, and every refusal with its reason
-/

namespace PackedBits.Bitmap

/-- Just enough bytes for `bits` flags, and no bit set past the last flag. -/
structure IsByteForm (bits : UInt64) (bytes : List UInt8) : Prop where
  length_eq : bytes.length = (bits.toNat + 7) / 8
  bit_of_le : ∀ p, bits.toNat ≤ p → Bytes.bit bytes p = false

/-! ## Encoding -/

theorem length_toBytes {a : Bitmap} (ha : a.words.size = (Word.countFor a.size).toNat) :
    a.toBytes.length = (a.size.toNat + 7) / 8 := by
  rw [toBytes, List.length_take, Bytes.length_flatMap_toBytes, Array.length_toList, ha,
    Word.toNat_byteCountFor, Word.toNat_countFor]
  omega

/-- The bytes that encoding drops have no bit set. -/
theorem bit_toBytes {a : Bitmap} (ha : a.WellFormed) (p : Nat) :
    Bytes.bit a.toBytes p = a.bit p := by
  rw [toBytes, Bytes.bit_take, bit_flatMap_toBytes, Word.toNat_byteCountFor]
  by_cases hp : p < a.size.toNat
  · rw [decide_eq_true (by omega), Bool.and_true]
  · rw [ha.bit_of_le p (by omega), Bool.false_and]

theorem isByteForm_toBytes {a : Bitmap} (ha : a.WellFormed) : IsByteForm a.size a.toBytes where
  length_eq := length_toBytes ha.size_words
  bit_of_le p hp := by rw [bit_toBytes ha, ha.bit_of_le p hp]

/-! ## Decoding -/

theorem IsByteForm.size_words {bits : UInt64} {bytes : List UInt8} (h : IsByteForm bits bytes) :
    (packed bits bytes).words.size = (Word.countFor bits).toNat :=
  size_words_packed (by rw [h.length_eq, Word.toNat_byteCountFor])

theorem packed_wellFormed {bits : UInt64} {bytes : List UInt8} (h : IsByteForm bits bytes) :
    (packed bits bytes).WellFormed where
  size_words := h.size_words
  bit_of_le p hp := by rw [bit_packed, h.bit_of_le p hp]

/-- Encoding what was decoded gives back the bytes. -/
theorem toBytes_packed {bits : UInt64} {bytes : List UInt8} (h : IsByteForm bits bytes) :
    (packed bits bytes).toBytes = bytes := by
  have hwf := packed_wellFormed h
  apply Bytes.ext_bit
  · rw [length_toBytes hwf.size_words, size_packed, h.length_eq]
  · intro p
    rw [bit_toBytes hwf, bit_packed]

/-- Decoding what was encoded gives back the bitmap. -/
theorem packed_toBytes {a : Bitmap} (ha : a.WellFormed) : packed a.size a.toBytes = a := by
  apply ext_bit (size_packed a.size a.toBytes)
  · rw [(isByteForm_toBytes ha).size_words, ha.size_words]
  · intro p
    rw [bit_packed, bit_toBytes ha]

/-- With the right number of bytes, only the padding is left to be looked at. -/
theorem ofBytes_of_length {bits : UInt64} (h0 : bits ≠ 0) {bytes : List UInt8}
    (hlen : bytes.length = (bits.toNat + 7) / 8) :
    ofBytes bits bytes =
      if (packed bits bytes).hasPadding then .error (.padding bits)
      else .ok (packed bits bytes) := by
  rw [ofBytes, if_neg h0, if_neg (by rw [hlen, Word.toNat_byteCountFor]; simp)]
  rfl

theorem ofBytes_of_isByteForm {bits : UInt64} (h0 : bits ≠ 0) {bytes : List UInt8}
    (h : IsByteForm bits bytes) : ofBytes bits bytes = .ok (packed bits bytes) := by
  have hpad : (packed bits bytes).hasPadding = false :=
    (hasPadding_eq_false_iff h.size_words).mpr (packed_wellFormed h).bit_of_le
  rw [ofBytes_of_length h0 h.length_eq, hpad]
  rfl

/-! ## Refusals -/

theorem ofBytes_zero (bytes : List UInt8) : ofBytes 0 bytes = .error .zeroBits := rfl

theorem ofBytes_of_length_ne {bits : UInt64} (h0 : bits ≠ 0) {bytes : List UInt8}
    (hlen : bytes.length ≠ (bits.toNat + 7) / 8) :
    ofBytes bits bytes = .error (.byteCount bits ((bits.toNat + 7) / 8) bytes.length) := by
  rw [← Word.toNat_byteCountFor] at hlen ⊢
  rw [ofBytes, if_neg h0, if_pos hlen]

theorem ofBytes_of_not_isByteForm {bits : UInt64} (h0 : bits ≠ 0) {bytes : List UInt8}
    (hlen : bytes.length = (bits.toNat + 7) / 8) (h : ¬ IsByteForm bits bytes) :
    ofBytes bits bytes = .error (.padding bits) := by
  rw [ofBytes_of_length h0 hlen]
  by_cases hpad : (packed bits bytes).hasPadding = true
  · rw [if_pos hpad]
  -- with the right length and without padding they would be acceptable
  · exfalso
    have hsize := size_words_packed (hlen.trans (Word.toNat_byteCountFor bits).symm)
    have hclear := (hasPadding_eq_false_iff hsize).mp (by simpa using hpad)
    refine h ⟨hlen, fun p hp => ?_⟩
    rw [← bit_packed bits, hclear p hp]

/-- Decoding succeeds on the acceptable byte strings only. -/
theorem ofBytes_eq_ok_iff {bits : UInt64} {bytes : List UInt8} {a : Bitmap} :
    ofBytes bits bytes = .ok a ↔ bits ≠ 0 ∧ IsByteForm bits bytes ∧ packed bits bytes = a := by
  by_cases h0 : bits = 0
  · simp [h0, ofBytes_zero]
  · by_cases hform : IsByteForm bits bytes
    · simp [h0, hform, ofBytes_of_isByteForm h0 hform]
    · by_cases hlen : bytes.length = (bits.toNat + 7) / 8
      · simp [hform, ofBytes_of_not_isByteForm h0 hlen hform]
      · simp [hform, ofBytes_of_length_ne h0 hlen]

theorem ofBytes_wellFormed {bits : UInt64} {bytes : List UInt8} {a : Bitmap}
    (h : ofBytes bits bytes = .ok a) : a.WellFormed := by
  obtain ⟨-, hform, rfl⟩ := ofBytes_eq_ok_iff.mp h
  exact packed_wellFormed hform

/-! ## Exactness -/

/--
**The byte form is a bijection with an exact domain.**

For each number of flags but zero, encoding and decoding are inverse to each other between the
well-formed bitmaps of that size and the byte strings that are `IsByteForm`, and every flag has the
bit of its own index. All other byte strings are refused: without any flag for that reason, else for
their length if it is wrong, and else for the bit that is set past the last flag. A session that is
asked to decode answers accordingly and never leaves an event.
-/
theorem ofBytes_inverts_toBytes (bits : UInt64) :
    (bits ≠ 0 → ∀ a : Bitmap, a.WellFormed → a.size = bits →
      IsByteForm bits a.toBytes ∧ (∀ p, Bytes.bit a.toBytes p = a.bit p) ∧
        ofBytes bits a.toBytes = .ok a) ∧
    (bits ≠ 0 → ∀ bytes, IsByteForm bits bytes →
      ∃ a : Bitmap, a.WellFormed ∧ a.size = bits ∧ ofBytes bits bytes = .ok a ∧
        a.toBytes = bytes) ∧
    (bits = 0 → ∀ bytes, ofBytes bits bytes = .error .zeroBits) ∧
    (bits ≠ 0 → ∀ bytes, bytes.length ≠ (bits.toNat + 7) / 8 →
      ofBytes bits bytes = .error (.byteCount bits ((bits.toNat + 7) / 8) bytes.length)) ∧
    (bits ≠ 0 → ∀ bytes, bytes.length = (bits.toNat + 7) / 8 → ¬ IsByteForm bits bytes →
      ofBytes bits bytes = .error (.padding bits)) ∧
    (∀ (w : Session) (dest : String) (bytes : List UInt8),
      (w.step (.fromBytes dest bits bytes)).1 =
        ⟨(ofBytes bits bytes).map fun _ => .flag true, []⟩) := by
  refine ⟨?_, ?_, ?_, ?_, ?_, ?_⟩
  · rintro h0 a ha rfl
    refine ⟨isByteForm_toBytes ha, bit_toBytes ha, ?_⟩
    rw [ofBytes_of_isByteForm h0 (isByteForm_toBytes ha), packed_toBytes ha]
  · intro h0 bytes h
    exact ⟨packed bits bytes, packed_wellFormed h, rfl, ofBytes_of_isByteForm h0 h,
      toBytes_packed h⟩
  · rintro rfl bytes
    exact ofBytes_zero bytes
  · intro h0 bytes hlen
    exact ofBytes_of_length_ne h0 hlen
  · intro h0 bytes hlen h
    exact ofBytes_of_not_isByteForm h0 hlen h
  · intro w dest bytes
    simp only [Session.step, Session.decoded]
    cases ofBytes bits bytes with
    | error e => rfl
    | ok a => rfl

/-- Nine flags, the last of them set: two bytes, of which the second has room for seven more. -/
theorem ofBytes_inverts_toBytes_nine :
    (9 : UInt64) ≠ 0 ∧
    (∃ a : Bitmap, a.WellFormed ∧ a.size = 9 ∧ IsByteForm 9 [0, 1] ∧ a.toBytes = [0, 1] ∧
      ofBytes 9 [0, 1] = .ok a) ∧
    ofBytes 9 [0xFF] = .error (.byteCount 9 2 1) ∧
    ofBytes 9 [0, 2] = .error (.padding 9) := by
  obtain ⟨hencode, -, -, hlength, hpadding, -⟩ := ofBytes_inverts_toBytes 9
  have h0 : (9 : UInt64) ≠ 0 := by decide
  have hwf : ((zeroed 9).set 8 true).2.WellFormed := set_wellFormed (zeroed_wellFormed 9) 8 true
  have hbytes : ((zeroed 9).set 8 true).2.toBytes = [0, 1] := by decide
  obtain ⟨hform, -, hok⟩ := hencode h0 _ hwf rfl
  rw [hbytes] at hform hok
  refine ⟨h0, ⟨_, hwf, rfl, hform, hbytes, hok⟩, hlength h0 [0xFF] (by decide), ?_⟩
  refine hpadding h0 [0, 2] (by decide) fun h => ?_
  have hclear : Bytes.bit [0, 2] 9 = false := h.bit_of_le 9 (by decide)
  exact absurd hclear (by decide)

end PackedBits.Bitmap
