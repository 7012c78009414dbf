import PackedBits.Proofs.Roundtrip.BytesInBinary

/-!
# Where a flag is found in the byte form

The flags of a bitmap lie in its byte form as they lie in its words, eight to a byte instead of
sixty-four to a word, and that of lowest index in the lowest bit. A word is cut into bytes from its
low end, so the place of a flag in the row of all bits does not change.

The bytes of the words are more than the flags need. What is cut off, and what is left over in the
last byte that is kept, is padding and hence zero.

## Main statements

* `getElem?_toBytes_of_test` — the byte that keeps a flag
* `flatMap_toBytes_eq` — what is cut off
* `toBytes_flag_by_flag` — the byte form that a session replies with
-/

namespace PackedBits

/-- The bit at a position is a bit of the byte that is there. -/
theorem Bytes.bit_of_getElem? {bytes : List UInt8} {p : Nat} {b : UInt8}
    (h : bytes[p / 8]? = some b) : bit bytes p = b.toNat.testBit (p % 8) := by
  rw [bit, List.getD_eq_getElem?_getD, h, Option.getD_some]

namespace Bitmap

section

variable {a : Bitmap} (ha : a.WellFormed)

include ha

/-- The bytes of all words are the byte form and zeros behind it. -/
theorem flatMap_toBytes_eq :
    a.words.toList.flatMap Word.toBytes =
      a.toBytes ++ List.replicate (8 * a.words.size - a.toBytes.length) 0 := by
  have hform := isByteForm_toBytes ha
  have hbytes := flatMap_toBytes_packed hform.length_eq
  rw [packed_toBytes ha] at hbytes
  rw [hbytes, hform.length_eq, ha.size_words, Word.toNat_countFor]

/-- A flag is found in the byte of its index, at the place that is left. -/
theorem getElem?_toBytes_of_test {i : UInt64} (hi : i < a.size) :
    ∃ b, a.toBytes[i.toNat / 8]? = some b ∧ b.toNat.testBit (i.toNat % 8) = a.test i := by
  rw [UInt64.lt_iff_toNat_lt] at hi
  have hlen : i.toNat / 8 < a.toBytes.length := by
    rw [length_toBytes ha.size_words]
    omega
  have hbyte := List.getElem?_eq_getElem hlen
  exact ⟨_, hbyte, by rw [← Bytes.bit_of_getElem? hbyte, bit_toBytes ha, ha.test_eq_bit]⟩

/-- In the last byte no bit is set above that of the last flag. -/
theorem testBit_getLast?_toBytes {b : UInt8} (hb : a.toBytes.getLast? = some b) {j : Nat}
    (hlast : (a.size.toNat - 1) % 8 < j) (hj : j < 8) : b.toNat.testBit j = false := by
  rw [List.getLast?_eq_getElem?] at hb
  have hpos : 0 < a.toBytes.length := by
    have hlt := (List.getElem?_eq_some_iff.mp hb).1
    omega
  have hdiv : (8 * (a.toBytes.length - 1) + j) / 8 = a.toBytes.length - 1 := by omega
  have hmod : (8 * (a.toBytes.length - 1) + j) % 8 = j := by omega
  have hpadding : a.size.toNat ≤ 8 * (a.toBytes.length - 1) + j := by
    rw [length_toBytes ha.size_words] at hpos ⊢
    omega
  rw [← hdiv] at hb
  rw [← hmod, ← Bytes.bit_of_getElem? hb, bit_toBytes ha, ha.bit_of_le _ hpadding]

end

end Bitmap

namespace Session

/--
**The byte form has eight flags in a byte, the first one in its lowest bit.**

A session that is asked for the byte form of a bitmap, with any number of flags or none, replies
with as many bytes as its flags fill, the last one perhaps in part. Each flag is the bit of its byte
that it is said to be, and no bit of the last byte above that of the last flag is set. The bytes of
all words begin with these, and those that are left out are zero.
-/
theorem toBytes_flag_by_flag {w : Session} (hw : Reachable w) {s : String} {a : Bitmap}
    (ha : w.slot s = some a) :
    w.step (.toBytes s) = (.plain (.bytes a.toBytes), w) ∧
    a.toBytes.length = (a.size.toNat + 7) / 8 ∧
    (∀ i, i < a.size →
      ∃ b, a.toBytes[i.toNat / 8]? = some b ∧ b.toNat.testBit (i.toNat % 8) = a.test i) ∧
    (∀ b, a.toBytes.getLast? = some b →
      ∀ j, (a.size.toNat - 1) % 8 < j → j < 8 → b.toNat.testBit j = false) ∧
    a.words.toList.flatMap Word.toBytes =
      a.toBytes ++ List.replicate (8 * a.words.size - a.toBytes.length) 0 := by
  have hwf : a.WellFormed := hw.wellFormed s a ha
  refine ⟨?_, Bitmap.length_toBytes hwf.size_words, ?_, ?_, Bitmap.flatMap_toBytes_eq hwf⟩
  · simp only [step, ask, ha, Slot.toBytes, Option.elim_some]
  · intro i hi
    exact Bitmap.getElem?_toBytes_of_test hwf hi
  · intro b hb j hlast hj
    exact Bitmap.testBit_getLast?_toBytes hwf hb hlast hj

/-- Seventy flags are nine bytes of sixteen. Flag 67 is bit 3 of the last one. -/
theorem toBytes_flag_by_flag_seventy :
    ∃ w : Session, Reachable w ∧ ∃ a : Bitmap, w.slot "s" = some a ∧ a.test 67 = true ∧
      a.toBytes.length = 9 ∧
      (∃ b, a.toBytes[8]? = some b ∧ b.toNat.testBit 3 = true ∧ b.toNat.testBit 6 = false) ∧
      a.words.toList.flatMap Word.toBytes = a.toBytes ++ List.replicate 7 0 := by
  have hreach := Reachable.start.run [.create "s" 70, .set "s" 67 true]
  obtain ⟨-, hlen, hflags, hpadding, hrest⟩ := toBytes_flag_by_flag hreach (s := "s") rfl
  have hset : (((Bitmap.zeroed 70).set 67 true).2).test 67 = true := by decide
  have hlen9 := hlen.trans (show _ = 9 by decide)
  obtain ⟨b, hb, hbit⟩ := hflags 67 (by decide)
  have hlast : (((Bitmap.zeroed 70).set 67 true).2).toBytes.getLast? = some b := by
    rw [List.getLast?_eq_getElem?, hlen9]
    exact hb
  have hclear := hpadding b hlast 6 (by decide) (by decide)
  rw [hlen9] at hrest
  exact ⟨_, hreach, _, rfl, hset, hlen9, ⟨b, hb, hbit.trans hset, hclear⟩, hrest⟩

end Session

end PackedBits
