import PackedBits.Error
import PackedBits.Word.Bytes

/-!
# The binary form

The number of flags, the number of words and then the words, each as eight bytes. Where there may be
no bitmap, a byte in front says whether there is one. Bytes behind the last word are not looked at.
-/

namespace PackedBits.Bitmap

/-! ## Writing -/

/-- The binary form of a bitmap. -/
def toBinary (a : Bitmap) : List UInt8 :=
  Word.toBytes a.size ++ Word.toBytes (UInt64.ofNat a.words.size) ++
    a.words.toList.flatMap Word.toBytes

/-- The binary form where there may be no bitmap. -/
def optionToBinary : Option Bitmap → List UInt8
  | none => [0]
  | some a => 1 :: a.toBinary

/-! ## Reading -/

/-- The word that bytes begin with, and the bytes behind it. -/
def takeWord? (bytes : List UInt8) : Option (Word × List UInt8) :=
  let head := bytes.take 8
  if head.length = 8 then some (Word.ofBytes head, bytes.drop 8) else none

/-- The `n` words that bytes begin with, and the bytes behind them. -/
def takeWords? : Nat → List UInt8 → Option (List Word × List UInt8)
  | 0, bytes => some ([], bytes)
  | n + 1, bytes => do
    let (w, rest) ← takeWord? bytes
    let (ws, rest) ← takeWords? n rest
    some (w :: ws, rest)

/-- The bitmap that bytes begin with, as it is written. -/
def readBinary? (bytes : List UInt8) : Option Bitmap := do
  let (bits, rest) ← takeWord? bytes
  let (count, rest) ← takeWord? rest
  let (ws, _) ← takeWords? count.toNat rest
  some ⟨bits, ws.toArray⟩

/-- The bitmap with a binary form that the bytes begin with. -/
def ofBinary (bytes : List UInt8) : Logged (Except DecodeError Bitmap) :=
  match readBinary? bytes with
  | none => ⟨.error (.binary .endOfInput), []⟩
  | some a => a.check.map (·.mapError fun m => .binary (.mismatch m))

/-- The bitmap, or none, with a binary form that the bytes begin with. -/
def optionOfBinary : List UInt8 → Logged (Except DecodeError (Option Bitmap))
  | [] => ⟨.error (.binary .endOfInput), []⟩
  | tag :: bytes =>
    if tag = 0 then ⟨.ok none, []⟩
    else if tag = 1 then (ofBinary bytes).map (·.map some)
    else ⟨.error (.binary (.badTag tag)), []⟩

end PackedBits.Bitmap
