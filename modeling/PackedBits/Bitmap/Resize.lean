import PackedBits.Event
import PackedBits.Bitmap.Padding

/-!
# Copying between sizes

Two ways to carry flags from one bitmap to another, both by whole words:

* `copyBits` builds a bitmap of another size, cutting words off or filling up with zero words
* `update` overwrites the words of a bitmap that keeps its size

The last word of the result may have come from the middle of the source, so both end by clearing
the padding.

## Main statements

* `bit_resized` — a copy has the bits of its source as far as its flags go, and no others
* `bit_overwritten` — an update takes the bits of those words that the source has
* `overwritten_eq_self` — when that changes nothing
-/

namespace PackedBits.Bitmap

/-! ## A copy of another size -/

/-- The first words of a bitmap, as many as `bits` flags need, and zero words where it has no more. -/
def resized (a : Bitmap) (bits : UInt64) : Bitmap :=
  let count := (Word.countFor bits).toNat
  let kept := a.words.extract 0 count
  clearPadding ⟨bits, kept ++ Array.replicate (count - kept.size) 0⟩

/-- A copy with `bits` flags. Asking for none gives no bitmap. -/
def copyBits (a : Bitmap) (bits : UInt64) : Logged (Option Bitmap) :=
  if bits = 0 then ⟨none, []⟩
  else ⟨some (a.resized bits), if bits < a.size then [.truncating a.size bits] else []⟩

/-! ## Overwriting -/

/-- The bitmap with each word replaced by the word of the same index in `src`, if there is one. -/
def overwritten (a src : Bitmap) : Bitmap :=
  clearPadding { a with words := a.words.mapIdx fun k w => src.words.getD k w }

/-- The bitmap after its words are overwritten with those of `src`. It keeps its size. -/
def update (a src : Bitmap) : Logged Bitmap :=
  ⟨a.overwritten src,
    if a.words.size ≠ src.words.size then [.mismatchedUpdate a.words.size src.words.size] else []⟩

/-! ## Shapes -/

@[simp] theorem size_resized (a : Bitmap) (bits : UInt64) : (a.resized bits).size = bits := rfl

/-- Cut off and filled up, the words are as many as asked for. -/
theorem size_words_filled (a : Bitmap) (count : Nat) :
    (a.words.extract 0 count ++
      Array.replicate (count - (a.words.extract 0 count).size) 0).size = count := by
  rw [Array.size_append, Array.size_extract, Array.size_replicate]
  omega

@[simp] theorem size_words_resized (a : Bitmap) (bits : UInt64) :
    (a.resized bits).words.size = (Word.countFor bits).toNat := by
  rw [resized, size_words_clearPadding, size_words_filled]

@[simp] theorem size_overwritten (a src : Bitmap) : (a.overwritten src).size = a.size := rfl

@[simp] theorem size_words_overwritten (a src : Bitmap) :
    (a.overwritten src).words.size = a.words.size := by
  simp [overwritten]

/-! ## Bits -/

/-- The words of a copy before its padding is cleared have the bits of the source. -/
theorem bit_filled (a : Bitmap) (bits : UInt64) (count p : Nat) (hp : p / 64 < count) :
    Bitmap.bit ⟨bits, a.words.extract 0 count ++
      Array.replicate (count - (a.words.extract 0 count).size) 0⟩ p = a.bit p := by
  simp only [bit, Array.getD_eq_getD_getElem?, Array.getElem?_append, Array.size_extract,
    Nat.sub_zero]
  by_cases hk : p / 64 < a.words.size
  · rw [if_pos (by omega), Array.getElem?_extract, if_pos (by omega), Nat.zero_add]
  · rw [if_neg (by omega), Array.getElem?_eq_none (show a.words.size ≤ p / 64 by omega),
      Array.getElem?_replicate]
    split
    · simp
    · simp

theorem bit_resized (a : Bitmap) (bits : UInt64) (p : Nat) :
    (a.resized bits).bit p = (a.bit p && decide (p < bits.toNat)) := by
  unfold resized
  rw [bit_clearPadding (size_words_filled a _)]
  by_cases hp : p < bits.toNat
  · rw [bit_filled a bits _ p (by rw [Word.toNat_countFor]; omega)]
  · rw [decide_eq_false hp, Bool.and_false, Bool.and_false]

theorem resized_wellFormed (a : Bitmap) (bits : UInt64) : (a.resized bits).WellFormed :=
  clearPadding_wellFormed (size_words_filled a _)

theorem bit_overwritten {a : Bitmap} (ha : a.words.size = (Word.countFor a.size).toNat)
    (src : Bitmap) (p : Nat) :
    (a.overwritten src).bit p =
      ((if p / 64 < src.words.size then src.bit p else a.bit p) && decide (p < a.size.toNat)) := by
  unfold overwritten
  rw [bit_clearPadding (by rw [Array.size_mapIdx]; exact ha)]
  by_cases hp : p < a.size.toNat
  · rw [Word.toNat_countFor] at ha
    have hk : p / 64 < a.words.size := by omega
    congr 1
    simp only [bit, Array.getD_eq_getD_getElem?, Array.getElem?_mapIdx,
      Array.getElem?_eq_getElem hk, Option.map_some, Option.getD_some]
    by_cases hs : p / 64 < src.words.size
    · rw [if_pos hs, Array.getElem?_eq_getElem hs]
      rfl
    · rw [if_neg hs, Array.getElem?_eq_none (show src.words.size ≤ p / 64 by omega)]
      rfl
  · rw [decide_eq_false hp, Bool.and_false, Bool.and_false]

theorem overwritten_wellFormed {a : Bitmap} (ha : a.words.size = (Word.countFor a.size).toNat)
    (src : Bitmap) : (a.overwritten src).WellFormed :=
  clearPadding_wellFormed (by rw [Array.size_mapIdx]; exact ha)

/-- An update changes nothing if the words it takes have the bits that are there already. -/
theorem overwritten_eq_self {a : Bitmap} (ha : a.WellFormed) {src : Bitmap}
    (h : ∀ p, p / 64 < src.words.size → p < a.size.toNat → src.bit p = a.bit p) :
    a.overwritten src = a := by
  apply ext_bit (size_overwritten a src) (size_words_overwritten a src)
  intro p
  rw [bit_overwritten ha.size_words]
  by_cases hp : p < a.size.toNat
  · rw [decide_eq_true hp, Bool.and_true]
    split
    · next hsrc => exact h p hsrc hp
    · rfl
  · rw [decide_eq_false hp, Bool.and_false, ha.bit_of_le p (by omega)]

end PackedBits.Bitmap
