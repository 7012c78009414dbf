import PackedBits.Bitmap.Padding

/-!
# Questions about all flags

Each question is answered from whole words. `isEmpty` and `countTrue` look at every stored bit and
so rely on the padding being zero; `isFull` and `trueIndices` look at flags only.
-/

namespace PackedBits.Bitmap

/-- Whether no flag is set. -/
def isEmpty (a : Bitmap) : Bool := a.words.all (· == 0)

/-- Whether every flag is set: all words but the last are full, and the last one is up to its mask. -/
def isFull (a : Bitmap) : Bool :=
  match a.words.back? with
  | none => true
  | some last => a.words.pop.all (· == Word.max) && last &&& a.lastMask == a.lastMask

/-- Number of flags that are set. -/
def countTrue (a : Bitmap) : Nat := a.words.toList.foldr (fun w n => Word.popCount w + n) 0

/-- The places inside a word. -/
def offsets : List UInt64 := (List.range Word.width).map UInt64.ofNat

/--
Ascending indices of the flags set in word `w` of index `k`. A word of zeros is skipped, and the
scan of any other stops at the first place that keeps no flag.
-/
def wordIndices (size : UInt64) (k : Nat) (w : Word) : List UInt64 :=
  if w = 0 then []
  else
    let base := UInt64.ofNat k * 64
    ((offsets.map (base + ·)).takeWhile (· < size)).filter fun i => Word.test w (i - base)

/-- Ascending indices of the flags that are set. -/
def trueIndices (a : Bitmap) : List UInt64 :=
  a.words.toList.zipIdx.flatMap fun (w, k) => wordIndices a.size k w

end PackedBits.Bitmap
