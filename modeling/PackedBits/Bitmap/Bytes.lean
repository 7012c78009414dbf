import PackedBits.Error
import PackedBits.Word.Bytes

/-!
# The byte form

The bytes of all words, as many as hold a flag. The number of flags is not among them, so whoever
decodes has to know it. Decoding accepts just the bytes that encoding gives.
-/

namespace PackedBits.Bitmap

/-- The byte form of a bitmap. -/
def toBytes (a : Bitmap) : List UInt8 :=
  (a.words.toList.flatMap Word.toBytes).take (Word.byteCountFor a.size).toNat

/-- Bytes in groups of eight; the last group may be shorter. -/
def octets : List UInt8 → List (List UInt8)
  | [] => []
  | b :: bs => (b :: bs.take 7) :: octets (bs.drop 7)
termination_by bs => bs.length
decreasing_by
  simp only [List.length_drop, List.length_cons]
  omega

/-- The bitmap of `bits` flags with the given byte form. -/
def ofBytes (bits : UInt64) (bytes : List UInt8) : Except DecodeError Bitmap :=
  let expected := (Word.byteCountFor bits).toNat
  if bits = 0 then .error .zeroBits
  else if bytes.length ≠ expected then .error (.byteCount bits expected bytes.length)
  else
    let a : Bitmap := ⟨bits, ((octets bytes).map Word.ofBytes).toArray⟩
    if a.hasPadding then .error (.padding bits) else .ok a

end PackedBits.Bitmap
