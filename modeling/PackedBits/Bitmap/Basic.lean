import PackedBits.Word

/-!
# Bitmaps

A bitmap is a number of flags and the words that keep them. The type admits any number of words
with any content, because decoders and the checks on what they read work on such pairs. The states
that the operations build and keep are those of `Bitmap.WellFormed`: just enough words, and nothing
set past the last flag.

## Views

* `Bitmap.bit` — the stored bit at a position, padding included
* `Bitmap.test` — the flag of an index, `false` out of range
-/

namespace PackedBits

/-- `size` flags, kept in `words`. -/
structure Bitmap where
  size : UInt64
  words : Array Word
  deriving DecidableEq

namespace Bitmap

/--
The stored bit at position `p`, whether or not a flag is kept there. Past the last word it is
`false`.
-/
def bit (a : Bitmap) (p : Nat) : Bool := (a.words.getD (p / 64) 0).toNat.testBit (p % 64)

/-- There are just enough words for the flags, and no bit is set past the last flag. -/
structure WellFormed (a : Bitmap) : Prop where
  size_words : a.words.size = (Word.countFor a.size).toNat
  bit_of_le : ∀ p, a.size.toNat ≤ p → a.bit p = false

/-! ## Construction -/

/-- `bits` flags, none of them set. -/
def zeroed (bits : UInt64) : Bitmap := ⟨bits, Array.replicate (Word.countFor bits).toNat 0⟩

/-- The bitmap without a flag. -/
def empty : Bitmap := zeroed 0

/-- `bits` flags, none of them set. Asking for none gives no bitmap. -/
def create? (bits : UInt64) : Option Bitmap := if bits = 0 then none else some (zeroed bits)

/-! ## Single flags -/

/-- The flag of index `i`. Out of range it is `false`. -/
def test (a : Bitmap) (i : UInt64) : Bool :=
  if i < a.size then Word.test (a.words.getD (Word.indexOf i).toNat 0) (Word.offsetOf i) else false

/-- The flag of index `i`, if there is one. -/
def get? (a : Bitmap) (i : UInt64) : Option Bool := if i < a.size then some (a.test i) else none

/-- Makes the flag of index `i` be `v`. Says whether there is such a flag; if not, nothing changes. -/
def set (a : Bitmap) (i : UInt64) (v : Bool) : Bool × Bitmap :=
  if i < a.size then
    (true, { a with
      words := a.words.modify (Word.indexOf i).toNat (Word.assign · (Word.offsetOf i) v) })
  else (false, a)

/-! ## Lemmas -/

/-- The bits of a word are stored from its first place on. -/
theorem bit_of_word {a : Bitmap} {k : Nat} (hk : k < a.words.size) {j : Nat} (hj : j < 64) :
    a.bit (64 * k + j) = a.words[k].toNat.testBit j := by
  rw [bit, show (64 * k + j) / 64 = k by omega, show (64 * k + j) % 64 = j by omega,
    Array.getD_eq_getD_getElem?, Array.getElem?_eq_getElem hk, Option.getD_some]

theorem bit_eq_testBit {a : Bitmap} {p : Nat} (hp : p / 64 < a.words.size) :
    a.bit p = a.words[p / 64].toNat.testBit (p % 64) := by
  rw [bit, Array.getD_eq_getD_getElem?, Array.getElem?_eq_getElem hp, Option.getD_some]

theorem bit_of_words_le {a : Bitmap} {p : Nat} (hp : a.words.size ≤ p / 64) : a.bit p = false := by
  rw [bit, Array.getD_eq_getD_getElem?, Array.getElem?_eq_none hp, Option.getD_none]
  exact Nat.zero_testBit _

theorem test_eq_bit {a : Bitmap} {i : UInt64} (h : i.toNat < a.size.toNat) :
    a.test i = a.bit i.toNat := by
  rw [test, if_pos (UInt64.lt_iff_toNat_lt.mpr h), bit, Word.toNat_indexOf,
    Word.test_eq_testBit _ (by rw [Word.toNat_offsetOf]; omega), Word.toNat_offsetOf]

theorem test_of_le {a : Bitmap} {i : UInt64} (h : a.size.toNat ≤ i.toNat) : a.test i = false := by
  rw [test, if_neg (by rw [UInt64.lt_iff_toNat_lt]; omega)]

theorem lt_size_of_test {a : Bitmap} {i : UInt64} (h : a.test i = true) : i < a.size := by
  by_cases hi : i < a.size
  · exact hi
  · rw [test, if_neg hi] at h
    cases h

/-- In a well-formed bitmap the flag of any index is the bit at its position, in range or not. -/
theorem WellFormed.test_eq_bit {a : Bitmap} (ha : a.WellFormed) (i : UInt64) :
    a.test i = a.bit i.toNat := by
  by_cases hi : i.toNat < a.size.toNat
  · exact Bitmap.test_eq_bit hi
  · rw [test_of_le (by omega), ha.bit_of_le _ (by omega)]

/-- In a well-formed bitmap it makes no difference to look at the bits that keep flags only. -/
theorem WellFormed.bit_and_decide {a : Bitmap} (ha : a.WellFormed) (p : Nat) :
    (a.bit p && decide (p < a.size.toNat)) = a.bit p := by
  by_cases hp : p < a.size.toNat
  · rw [decide_eq_true hp, Bool.and_true]
  · rw [decide_eq_false hp, Bool.and_false, ha.bit_of_le p (by omega)]

/-- All flags have their places in the words. -/
theorem size_le_places {a : Bitmap} (ha : a.words.size = (Word.countFor a.size).toNat) :
    a.size.toNat ≤ 64 * a.words.size := by
  rw [ha, Word.toNat_countFor]
  omega

theorem bit_zeroed (bits : UInt64) (p : Nat) : (zeroed bits).bit p = false := by
  simp only [bit, zeroed, Array.getD_eq_getD_getElem?, Array.getElem?_replicate]
  split <;> simp

theorem zeroed_wellFormed (bits : UInt64) : (zeroed bits).WellFormed :=
  ⟨by simp [zeroed], fun p _ => bit_zeroed bits p⟩

@[simp] theorem size_set (a : Bitmap) (i : UInt64) (v : Bool) : (a.set i v).2.size = a.size := by
  unfold set; split <;> rfl

@[simp] theorem size_words_set (a : Bitmap) (i : UInt64) (v : Bool) :
    (a.set i v).2.words.size = a.words.size := by
  unfold set; split <;> simp

theorem set_fst (a : Bitmap) (i : UInt64) (v : Bool) :
    (a.set i v).1 = decide (i.toNat < a.size.toNat) := by
  unfold set
  split
  · next h => simpa using UInt64.lt_iff_toNat_lt.mp h
  · next h => simpa [UInt64.lt_iff_toNat_lt] using h

/-- A write changes the bit at its own position and no other. -/
theorem bit_set {a : Bitmap} (ha : a.WellFormed) (i : UInt64) (v : Bool) (p : Nat) :
    (a.set i v).2.bit p = if p = i.toNat ∧ p < a.size.toNat then v else a.bit p := by
  unfold set
  split
  · next h =>
    have hlt : i.toNat < a.size.toNat := UInt64.lt_iff_toNat_lt.mp h
    have hw : i.toNat / 64 < a.words.size := by
      rw [ha.size_words, Word.toNat_countFor]
      omega
    simp only [bit, Array.getD_eq_getD_getElem?, Array.getElem?_modify, Word.toNat_indexOf]
    by_cases hword : i.toNat / 64 = p / 64
    · rw [if_pos hword, ← hword, Array.getElem?_eq_getElem hw, Option.map_some,
        Option.getD_some, Option.getD_some,
        Word.testBit_assign _ (by rw [Word.toNat_offsetOf]; omega) _ (by omega),
        Word.toNat_offsetOf]
      by_cases hp : p = i.toNat
      · rw [if_pos (by rw [hp]), if_pos ⟨hp, by omega⟩]
      · rw [if_neg (by omega), if_neg (fun hc => hp hc.1)]
    · rw [if_neg hword, if_neg (fun hc => hword (by rw [hc.1]))]
  · next h =>
    have hle : a.size.toNat ≤ i.toNat := by
      rw [UInt64.lt_iff_toNat_lt] at h
      omega
    rw [if_neg (fun hc => by omega)]

theorem set_wellFormed {a : Bitmap} (ha : a.WellFormed) (i : UInt64) (v : Bool) :
    (a.set i v).2.WellFormed where
  size_words := by rw [size_words_set, size_set, ha.size_words]
  bit_of_le p hp := by
    rw [size_set] at hp
    rw [bit_set ha, if_neg (fun hc => by omega), ha.bit_of_le p hp]

/-- A write changes its own flag and no other. -/
theorem test_set {a : Bitmap} (ha : a.WellFormed) (i : UInt64) (v : Bool) {j : UInt64}
    (hj : j < a.size) : (a.set i v).2.test j = if i = j then v else a.test j := by
  have hlt : j.toNat < a.size.toNat := UInt64.lt_iff_toNat_lt.mp hj
  rw [test_eq_bit (by rw [size_set]; exact hlt), bit_set ha, test_eq_bit hlt]
  by_cases h : i = j
  · rw [if_pos h, if_pos ⟨congrArg UInt64.toNat h.symm, hlt⟩]
  · rw [if_neg h, if_neg (fun hc => h (UInt64.toNat.inj hc.1.symm))]

/-- Two bitmaps of equal shape that agree on every bit are equal. -/
theorem ext_bit {a b : Bitmap} (hs : a.size = b.size) (hw : a.words.size = b.words.size)
    (hb : ∀ p, a.bit p = b.bit p) : a = b := by
  obtain ⟨n, as⟩ := a
  obtain ⟨m, bs⟩ := b
  simp only at hs hw
  subst hs
  congr 1
  apply Array.ext hw
  intro k hk hk'
  apply Word.ext_testBit
  intro j
  by_cases hj : j < 64
  · have h := hb (64 * k + j)
    rwa [bit_of_word hk hj, bit_of_word hk' hj] at h
  · rw [Word.testBit_of_le _ (by omega), Word.testBit_of_le _ (by omega)]

/-- Two well-formed bitmaps of equal size that agree on every flag are equal. -/
theorem ext_test {a b : Bitmap} (ha : a.WellFormed) (hb : b.WellFormed) (hs : a.size = b.size)
    (ht : ∀ i, a.test i = b.test i) : a = b := by
  apply ext_bit hs
  · rw [ha.size_words, hb.size_words, hs]
  · intro p
    by_cases hp : p < a.size.toNat
    · have hi : (UInt64.ofNat p).toNat = p := Word.toNat_ofNat_of_lt hp
      have h := ht (UInt64.ofNat p)
      rw [test_eq_bit (by rw [hi]; exact hp), test_eq_bit (by rw [hi, ← hs]; exact hp), hi] at h
      exact h
    · rw [ha.bit_of_le p (by omega), hb.bit_of_le p (by rw [← hs]; omega)]

end Bitmap

end PackedBits
