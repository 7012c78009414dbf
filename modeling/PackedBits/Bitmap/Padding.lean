import PackedBits.Bitmap.Basic

/-!
# Padding

The last word of a bitmap may have room for more flags than are left. The bits of that room are the
padding, and in a well-formed bitmap they are zero. Here they are found and cleared, both through a
mask of the last word.

## Main statements

With the right number of words, whatever is in them:

* `hasPadding_eq_false_iff` — no padding is found just if no bit is set past the last flag
* `bit_clearPadding` — clearing keeps the flags and makes every other bit zero
-/

namespace PackedBits.Bitmap

/-- The bits of the last word that keep flags. -/
def lastMask (a : Bitmap) : Word := Word.lowMask (Word.lastBits a.size)

/-- Whether a bit of the last word is set that keeps no flag. -/
def hasPadding (a : Bitmap) : Bool :=
  match a.words.back? with
  | none => false
  | some last => last &&& ~~~a.lastMask != 0

/-- The bitmap with the bits of the last word that keep no flag made zero. -/
def clearPadding (a : Bitmap) : Bitmap :=
  { a with words := a.words.modify (a.words.size - 1) (· &&& a.lastMask) }

@[simp] theorem size_clearPadding (a : Bitmap) : a.clearPadding.size = a.size := rfl

@[simp] theorem size_words_clearPadding (a : Bitmap) :
    a.clearPadding.words.size = a.words.size := by
  simp [clearPadding]

/-- The mask of the last word tells flags from padding. -/
theorem lastMask_covers {a : Bitmap} (ha : a.words.size = (Word.countFor a.size).toNat)
    {p : Nat} (hp : p / 64 = a.words.size - 1) (hpos : 0 < a.words.size) :
    a.lastMask.toNat.testBit (p % 64) = decide (p < a.size.toNat) := by
  rw [Word.toNat_countFor] at ha
  rw [lastMask, Word.testBit_lowMask, Word.toNat_lastBits, if_neg (by omega), decide_eq_decide]
  omega

theorem bit_clearPadding {a : Bitmap} (ha : a.words.size = (Word.countFor a.size).toNat) (p : Nat) :
    a.clearPadding.bit p = (a.bit p && decide (p < a.size.toNat)) := by
  simp only [bit, clearPadding, Array.getD_eq_getD_getElem?, Array.getElem?_modify]
  by_cases hlast : a.words.size - 1 = p / 64
  · by_cases hpos : 0 < a.words.size
    · rw [if_pos hlast, Array.getElem?_eq_getElem (show p / 64 < a.words.size by omega),
        Option.map_some, Option.getD_some, Option.getD_some, UInt64.toNat_and, Nat.testBit_and,
        lastMask_covers ha hlast.symm hpos]
    · simp [Array.getElem?_eq_none (show a.words.size ≤ p / 64 by omega)]
  · rw [if_neg hlast]
    by_cases hp : p / 64 < a.words.size
    · rw [Word.toNat_countFor] at ha
      rw [decide_eq_true (show p < a.size.toNat by omega), Bool.and_true]
    · simp [Array.getElem?_eq_none (show a.words.size ≤ p / 64 by omega)]

theorem clearPadding_wellFormed {a : Bitmap} (ha : a.words.size = (Word.countFor a.size).toNat) :
    a.clearPadding.WellFormed where
  size_words := by rw [size_words_clearPadding, size_clearPadding, ha]
  bit_of_le p hp := by
    rw [size_clearPadding] at hp
    rw [bit_clearPadding ha, decide_eq_false (by omega), Bool.and_false]

/-- The last word is clear outside its mask just if no bit in it is set that keeps no flag. -/
theorem last_and_not_lastMask_iff {a : Bitmap} (ha : a.words.size = (Word.countFor a.size).toNat)
    (hlast : a.words.size - 1 < a.words.size) :
    a.words[a.words.size - 1] &&& ~~~a.lastMask = 0 ↔
      ∀ p, p / 64 = a.words.size - 1 → a.size.toNat ≤ p → a.bit p = false := by
  simp only [Word.eq_zero_iff, UInt64.toNat_and, Nat.testBit_and, Word.testBit_not]
  constructor
  · intro h p hp hle
    have hj := h (p % 64)
    rw [lastMask_covers ha hp (by omega), decide_eq_false (Nat.not_lt.mpr hle),
      decide_eq_true (Nat.mod_lt p (by decide)), Bool.not_false, Bool.and_true, Bool.and_true] at hj
    rw [← hj, ← bit_of_word hlast (by omega), show 64 * (a.words.size - 1) + p % 64 = p by omega]
  · intro h j
    by_cases hj : j < 64
    · have hm := lastMask_covers ha
        (show (64 * (a.words.size - 1) + j) / 64 = a.words.size - 1 by omega) (by omega)
      rw [show (64 * (a.words.size - 1) + j) % 64 = j by omega] at hm
      rw [hm, ← bit_of_word hlast hj]
      by_cases hflag : 64 * (a.words.size - 1) + j < a.size.toNat
      · rw [decide_eq_true hflag, Bool.not_true, Bool.and_false, Bool.and_false]
      · rw [h _ (by omega) (by omega), Bool.false_and]
    · rw [Word.testBit_of_le _ (by omega), Bool.false_and]

theorem hasPadding_eq_false_iff {a : Bitmap} (ha : a.words.size = (Word.countFor a.size).toNat) :
    a.hasPadding = false ↔ ∀ p, a.size.toNat ≤ p → a.bit p = false := by
  unfold hasPadding
  rw [Array.back?_eq_getElem?]
  by_cases hpos : 0 < a.words.size
  · have hlast : a.words.size - 1 < a.words.size := by omega
    rw [Array.getElem?_eq_getElem hlast]
    simp only [bne_eq_false_iff_eq, last_and_not_lastMask_iff ha hlast]
    constructor
    · intro h p hp
      by_cases hword : p / 64 = a.words.size - 1
      · exact h p hword hp
      · rw [Word.toNat_countFor] at ha
        exact bit_of_words_le (by omega)
    · intro h p _ hp
      exact h p hp
  · have hnil : a.words = #[] := Array.size_eq_zero_iff.mp (by omega)
    simp [bit, hnil]

end PackedBits.Bitmap
