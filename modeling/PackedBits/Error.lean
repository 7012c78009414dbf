import PackedBits.Bitmap.Check
import PackedBits.Json.Cause
import PackedBits.Json.Input

/-!
# Errors of decoding

Operations on bitmaps never fail; only decoding does. What went wrong is data, and
`DecodeError.message` words it.
-/

namespace PackedBits

/-- Why a text in JSON was refused. -/
inductive JsonError where
  /-- It could not be read; the position is where this showed. -/
  | unread (cause : Json.Cause) (position : Json.Position)
  /-- What was read is not a well-formed bitmap. -/
  | mismatch (m : Mismatch)

/-- Why bytes in the binary form were refused. -/
inductive BinaryError where
  /-- They end too early. -/
  | endOfInput
  /-- The byte that tells a bitmap from none is neither zero nor one. -/
  | badTag (b : UInt8)
  /-- What was read is not a well-formed bitmap. -/
  | mismatch (m : Mismatch)

/-- Why no bitmap was decoded. -/
inductive DecodeError where
  /-- A bitmap was asked for that has no flags. -/
  | zeroBits
  /-- There are more or fewer bytes than the flags need. -/
  | byteCount (bits : UInt64) (expected actual : Nat)
  /-- A bit of the bytes is set that keeps no flag. -/
  | padding (bits : UInt64)
  | json (e : JsonError)
  | binary (e : BinaryError)

/-- What a refused text is reported as. A mismatch has no position. -/
def JsonError.message : JsonError → String
  | .unread cause position =>
    s!"{cause.message} at line {position.line} column {position.column}"
  | .mismatch m => m.message

/-- What refused bytes are reported as. -/
def BinaryError.message : BinaryError → String
  | .endOfInput => "io error: unexpected end of file"
  | .badTag b => s!"tag for enum is not valid, found {b.toNat}"
  | .mismatch m => m.message

/-- What an error is reported as. -/
def DecodeError.message : DecodeError → String
  | .zeroBits => "Bit count must be greater than zero"
  | .byteCount bits expected actual =>
    s!"Invalid byte count for {bits.toNat} bits: expected {expected}, got {actual}"
  | .padding bits => (Mismatch.padding bits).message
  | .json e => s!"JSON error: {e.message}"
  | .binary e => s!"Binary serialization error: {e.message}"

/-- A text that was not read is reported with its cause and its place. -/
theorem DecodeError.message_unread (cause : Json.Cause) (position : Json.Position) :
    (DecodeError.json (.unread cause position)).message =
      "JSON error: " ++ (cause.message ++
        s!" at line {position.line} column {position.column}") := by
  have hunread : (JsonError.unread cause position).message =
      cause.message ++ s!" at line {position.line} column {position.column}" := by
    rw [JsonError.message]
    simp only [String.append_assoc]
    rfl
  rw [← hunread]
  rfl

end PackedBits
