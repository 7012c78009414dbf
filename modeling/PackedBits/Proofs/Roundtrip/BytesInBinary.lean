import PackedBits.Proofs.Decoding.Verdict
import PackedBits.Proofs.Roundtrip.Bytes
import PackedBits.Proofs.Session.Reachable

/-!
# The byte form inside the binary form

The byte form is cut off behind the last flag, and the binary form writes all words to their end.
So the one is found in the other, between a header with the two numbers and as many zeros as the
last word has bytes to spare (`framedBytes`).

Both forms are led back to the same words here. Those of a byte string (`packed`) are written in
binary as the byte string itself with zeros behind it, whatever is in it, because a group of less
than eight bytes is filled up with zeros. What the decoders then say of these words differs only in
how it is reported.

## Main statements

* `flatMap_toBytes_packed` — the bytes of the words of a byte string
* `toBinary_packed` — their binary form
* `toBytes_in_toBinary` — both forms of a bitmap, and both decoders
-/

namespace PackedBits

namespace Bitmap

/-! ## The form around the bytes -/

/-- A byte form with the number of flags and the number of words in front, filled up to words. -/
def framedBytes (bits : UInt64) (bytes : List UInt8) : List UInt8 :=
  let count := (bits.toNat + 63) / 64
  Word.toBytes bits ++ Word.toBytes (UInt64.ofNat count) ++ bytes ++
    List.replicate (8 * count - (bits.toNat + 7) / 8) 0

theorem size_words_packed_of_length {bits : UInt64} {bytes : List UInt8}
    (hlen : bytes.length = (bits.toNat + 7) / 8) :
    (packed bits bytes).words.size = (bits.toNat + 63) / 64 := by
  rw [size_words_packed (hlen.trans (Word.toNat_byteCountFor bits).symm), Word.toNat_countFor]

/-- The words of a byte string are written as its bytes, up to the end of the last word. -/
theorem flatMap_toBytes_packed {bits : UInt64} {bytes : List UInt8}
    (hlen : bytes.length = (bits.toNat + 7) / 8) :
    (packed bits bytes).words.toList.flatMap Word.toBytes =
      bytes ++ List.replicate (8 * ((bits.toNat + 63) / 64) - (bits.toNat + 7) / 8) 0 := by
  have hsize := size_words_packed_of_length hlen
  apply Bytes.ext_bit
  · rw [Bytes.length_flatMap_toBytes, Array.length_toList, hsize, List.length_append,
      List.length_replicate, hlen]
    omega
  · intro p
    rw [bit_flatMap_toBytes, bit_packed, Bytes.bit_append]
    by_cases hp : p < 8 * bytes.length
    · rw [if_pos hp]
    · rw [if_neg hp, Bytes.bit_replicate_zero, Bytes.bit_of_le (by omega)]

theorem toBinary_packed {bits : UInt64} {bytes : List UInt8}
    (hlen : bytes.length = (bits.toNat + 7) / 8) :
    (packed bits bytes).toBinary = framedBytes bits bytes := by
  have hsize := size_words_packed_of_length hlen
  rw [toBinary, flatMap_toBytes_packed hlen, size_packed, hsize, framedBytes]
  simp only [List.append_assoc]

/-- The binary form holds the byte form. -/
theorem toBinary_eq_framedBytes {a : Bitmap} (ha : a.WellFormed) :
    a.toBinary = framedBytes a.size a.toBytes := by
  rw [← toBinary_packed (isByteForm_toBytes ha).length_eq, packed_toBytes ha]

/-! ## Both decoders -/

/-- Without a bit past the last flag both decoders give the words of the bytes. -/
theorem decoded_of_isByteForm {bits : UInt64} (h0 : bits ≠ 0) {bytes : List UInt8}
    (h : IsByteForm bits bytes) :
    ofBytes bits bytes = .ok (packed bits bytes) ∧
      ofBinary (framedBytes bits bytes) = ⟨.ok (packed bits bytes), []⟩ := by
  have hwf := packed_wellFormed h
  have hread := ofBinary_append hwf []
  rw [List.append_nil, toBinary_packed h.length_eq] at hread
  exact ⟨ofBytes_of_isByteForm h0 h, hread⟩

/-- With such a bit both refuse, and only the decoder of the binary form leaves an event. -/
theorem refused_of_bit {bits : UInt64} (h0 : bits ≠ 0) {bytes : List UInt8}
    (hlen : bytes.length = (bits.toNat + 7) / 8) {p : Nat} (hp : bits.toNat ≤ p)
    (hbit : Bytes.bit bytes p = true) :
    ofBytes bits bytes = .error (.padding bits) ∧
      ofBinary (framedBytes bits bytes) =
        ⟨.error (.binary (.mismatch (.padding bits))), [.paddingRejected bits]⟩ := by
  have hform : ¬ IsByteForm bits bytes := by
    intro h
    rw [h.bit_of_le p hp] at hbit
    cases hbit
  have hsize := size_words_packed_of_length hlen
  have hcheck : (packed bits bytes).check =
      ⟨.error (.padding bits), [.paddingRejected bits]⟩ :=
    check_of_bit hsize hp ((bit_packed bits bytes p).trans hbit)
  have hlt : (packed bits bytes).words.size < UInt64.size := by
    rw [hsize, ← Word.toNat_countFor]
    exact (Word.countFor bits).toNat_lt
  have hread := ofBinary_append_eq_check hlt []
  rw [List.append_nil, toBinary_packed hlen, hcheck] at hread
  exact ⟨ofBytes_of_not_isByteForm h0 hlen hform, hread⟩

/--
**The binary form is the byte form in a frame.**

The frame is the number of flags and the number of words in front, in eight bytes each with the
lowest bits first, and zeros up to the end of the last word behind. The binary form of every bitmap
of a reachable session is its byte form in this frame. Any bytes of the right number can be put in
it. If none of their bits is past the last flag, decoding them and decoding the frame give the same
bitmap, which has these bits. Otherwise both are refused in the same words, which say the number of
flags. They are reported for the frame as an error of the binary form and with an event, and for the
bytes as they are and without one.
-/
theorem toBytes_in_toBinary :
    (∀ (bits : UInt64) (bytes : List UInt8), framedBytes bits bytes =
      Word.toBytes bits ++ Word.toBytes (UInt64.ofNat ((bits.toNat + 63) / 64)) ++ bytes ++
        List.replicate (8 * ((bits.toNat + 63) / 64) - (bits.toNat + 7) / 8) 0) ∧
    (∀ v : UInt64, Word.toBytes v =
      (List.range 8).map fun k => UInt8.ofNat (v.toNat >>> (8 * k))) ∧
    (∀ w : Session, Session.Reachable w → ∀ (s : String) (a : Bitmap), w.slot s = some a →
      a.toBinary = framedBytes a.size a.toBytes) ∧
    (∀ bits : UInt64, bits ≠ 0 → ∀ bytes : List UInt8, bytes.length = (bits.toNat + 7) / 8 →
      ((∀ p, bits.toNat ≤ p → Bytes.bit bytes p = false) ∧
        ∃ a : Bitmap, a.size = bits ∧ (∀ p, a.bit p = Bytes.bit bytes p) ∧
          ofBytes bits bytes = .ok a ∧ ofBinary (framedBytes bits bytes) = ⟨.ok a, []⟩) ∨
      ((∃ p, bits.toNat ≤ p ∧ Bytes.bit bytes p = true) ∧
        ofBytes bits bytes = .error (.padding bits) ∧
        ofBinary (framedBytes bits bytes) =
          ⟨.error (.binary (.mismatch (.padding bits))), [.paddingRejected bits]⟩)) ∧
    (∀ bits : UInt64, (DecodeError.binary (.mismatch (.padding bits))).message =
      "Binary serialization error: " ++ (DecodeError.padding bits).message) ∧
    (∀ bits : UInt64, (DecodeError.padding bits).message =
      "Padding bits set beyond bit count " ++ toString bits.toNat) ∧
    (∀ (w : Session) (dest : String) (bits : UInt64) (bytes : List UInt8),
      (w.step (.fromBytes dest bits bytes)).1.events = []) := by
  refine ⟨?_, ?_, ?_, ?_, ?_, Mismatch.message_padding, ?_⟩
  · intro bits bytes
    rfl
  · intro v
    exact Bytes.lowBytes_eq_map 8 v.toNat
  · intro w hw s a ha
    exact toBinary_eq_framedBytes (hw.wellFormed s a ha)
  · intro bits h0 bytes hlen
    by_cases hclear : ∀ p, bits.toNat ≤ p → Bytes.bit bytes p = false
    · obtain ⟨hbytes, hbinary⟩ := decoded_of_isByteForm h0 ⟨hlen, hclear⟩
      exact .inl ⟨hclear, packed bits bytes, rfl, bit_packed bits bytes, hbytes, hbinary⟩
    · obtain ⟨p, hp, hbit⟩ : ∃ p, bits.toNat ≤ p ∧ Bytes.bit bytes p = true := by
        simpa using hclear
      exact .inr ⟨⟨p, hp, hbit⟩, refused_of_bit h0 hlen hp hbit⟩
  · intro bits
    rfl
  · intro w dest bits bytes
    simp only [Session.step, Session.decoded]
    cases ofBytes bits bytes with
    | error e => rfl
    | ok a => rfl

/-- Nine flags: two bytes in eight, with the last flag set, and with the bit behind it set. -/
theorem toBytes_in_toBinary_nine :
    (∃ w : Session, Session.Reachable w ∧ w.slot "s" = some ((zeroed 9).set 8 true).2 ∧
      ((zeroed 9).set 8 true).2.toBinary = framedBytes 9 [0, 1]) ∧
    (∃ a : Bitmap, ofBytes 9 [0, 1] = .ok a ∧ ofBinary (framedBytes 9 [0, 1]) = ⟨.ok a, []⟩) ∧
    ofBytes 9 [0, 2] = .error (.padding 9) ∧
    ofBinary [9, 0, 0, 0, 0, 0, 0, 0, 1, 0, 0, 0, 0, 0, 0, 0, 0, 2, 0, 0, 0, 0, 0, 0] =
      ⟨.error (.binary (.mismatch (.padding 9))), [.paddingRejected 9]⟩ := by
  obtain ⟨-, -, hform, hdecoded, -⟩ := toBytes_in_toBinary
  have hreach := Session.Reachable.start.run [.create "s" 9, .set "s" 8 true]
  have hbytes : ((zeroed 9).set 8 true).2.toBytes = [0, 1] := by decide
  have hclear : IsByteForm 9 [0, 1] :=
    hbytes ▸ isByteForm_toBytes (set_wellFormed (zeroed_wellFormed 9) 8 true)
  have hframe : framedBytes 9 [0, 2] =
      [9, 0, 0, 0, 0, 0, 0, 0, 1, 0, 0, 0, 0, 0, 0, 0, 0, 2, 0, 0, 0, 0, 0, 0] := by decide
  refine ⟨⟨_, hreach, rfl, ?_⟩, ?_, ?_⟩
  · have h := hform _ hreach "s" _ rfl
    rwa [hbytes] at h
  · rcases hdecoded 9 (by decide) [0, 1] (by decide) with
      ⟨-, a, -, -, ha, ha'⟩ | ⟨⟨p, hp, hbit⟩, -⟩
    · exact ⟨a, ha, ha'⟩
    · rw [hclear.bit_of_le p hp] at hbit
      cases hbit
  · rcases hdecoded 9 (by decide) [0, 2] (by decide) with ⟨h, -⟩ | ⟨-, h, h'⟩
    · exact absurd (h 9 (by decide)) (by decide)
    · rw [hframe] at h'
      exact ⟨h, h'⟩

end Bitmap

end PackedBits
