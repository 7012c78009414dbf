import Mathlib.Algebra.Order.Floor.Div
import PackedBits.Proofs.Bits.Indices
import PackedBits.Proofs.Bounds.Checked

/-!
# Sizes up to the greatest one

A number of flags may be any number of 64 bits, since a decoder takes it from wherever it comes.
Adding to it before dividing could wrap around, and so could a shift by what is left of a word when
nothing is left. The sizes are computed in an order in which neither happens: here the same
computations are made of steps that are refused where they wrap around, and none of them is.

The quotients are rounded up, so each of them is the least number that is enough. Words can be
counted from flags or from bytes, and that comes to the same.

## Main statements

* `isLeast_countFor`, `isLeast_byteCountFor`, `isLeast_countFor_bytes` — each size is the least
* `toNat_eq_add_lastBits` — all words but the last are full
* `lowMaskChecked_eq`, `firstPlaceChecked_eq` — masks and places, and likewise for the sizes
* `sizes_exact` — all of it
-/

namespace PackedBits

namespace Word

/-! ## The least number that is enough -/

theorem isLeast_countFor (bits : UInt64) :
    IsLeast {k : Nat | bits.toNat ≤ 64 * k} (countFor bits).toNat := by
  rw [toNat_countFor]
  exact (gc_mul_ceilDiv (show 0 < 64 by decide)).isLeast_l

theorem isLeast_byteCountFor (bits : UInt64) :
    IsLeast {k : Nat | bits.toNat ≤ 8 * k} (byteCountFor bits).toNat := by
  rw [toNat_byteCountFor]
  exact (gc_mul_ceilDiv (show 0 < 8 by decide)).isLeast_l

/-- The words for some flags are those for their bytes. -/
theorem isLeast_countFor_bytes (bits : UInt64) :
    IsLeast {k : Nat | (byteCountFor bits).toNat ≤ 8 * k} (countFor bits).toNat := by
  have hwords : (countFor bits).toNat = ((byteCountFor bits).toNat + 7) / 8 := by
    rw [toNat_countFor, toNat_byteCountFor]
    omega
  rw [hwords]
  exact (gc_mul_ceilDiv (show 0 < 8 by decide)).isLeast_l

/-! ## The last word -/

theorem lastBits_bounds (bits : UInt64) :
    1 ≤ (lastBits bits).toNat ∧ (lastBits bits).toNat ≤ 64 := by
  rw [toNat_lastBits]
  split
  · decide
  · omega

/-- All words but the last are full, and the last one has the rest. -/
theorem toNat_eq_add_lastBits {bits : UInt64} (h : 0 < bits) :
    bits.toNat = 64 * ((countFor bits).toNat - 1) + (lastBits bits).toNat := by
  rw [UInt64.lt_iff_toNat_lt, UInt64.toNat_zero] at h
  rw [toNat_countFor, toNat_lastBits, if_neg (by omega)]
  omega

/-- The mask of up to a whole word has just its lowest bits. -/
theorem testBit_lowMask_lastBits (bits : UInt64) (j : Nat) :
    (lowMask (lastBits bits)).toNat.testBit j = decide (j < (lastBits bits).toNat) := by
  have hle := (lastBits_bounds bits).2
  rw [testBit_lowMask, decide_eq_decide]
  omega

/-! ## Without wrapping around -/

/-- The quotient rounded up, by a divisor that is not zero. -/
def ceilDivChecked (n divisor : UInt64) : Checked UInt64 :=
  if n % divisor = 0 then .ok (n / divisor) else Checked.add (n / divisor) 1

/-- `countFor`, without wrapping around. -/
def countForChecked (bits : UInt64) : Checked UInt64 := ceilDivChecked bits 64

/-- `byteCountFor`, without wrapping around. -/
def byteCountForChecked (bits : UInt64) : Checked UInt64 := ceilDivChecked bits 8

/-- `lastBits`, without wrapping around. -/
def lastBitsChecked (bits : UInt64) : Checked UInt64 :=
  if bits = 0 then .ok 64
  else do
    let others ← Checked.sub bits 1
    Checked.add (others % 64) 1

/-- `lowMask`, without wrapping around or shifting too far. -/
def lowMaskChecked (n : UInt64) : Checked Word :=
  if n = 0 then .ok 0
  else if 64 ≤ n then .ok max
  else do
    let unused ← Checked.sub 64 n
    Checked.shiftRight max unused

/-- The index of the first flag of word `k`, without wrapping around. -/
def firstPlaceChecked (k : Nat) : Checked UInt64 := do
  let index ← Checked.ofNat k
  Checked.mul index 64

theorem ceilDivChecked_eq (n : UInt64) {divisor : UInt64} (h : 1 < divisor) :
    ceilDivChecked n divisor = .ok (n / divisor + if n % divisor = 0 then 0 else 1) := by
  rw [UInt64.lt_iff_toNat_lt, UInt64.toNat_one] at h
  unfold ceilDivChecked
  split
  · rw [UInt64.add_zero]
  · exact Checked.add_eq (toNat_div_add_one_lt n h)

theorem countForChecked_eq (bits : UInt64) : countForChecked bits = .ok (countFor bits) :=
  ceilDivChecked_eq bits (by decide)

theorem byteCountForChecked_eq (bits : UInt64) :
    byteCountForChecked bits = .ok (byteCountFor bits) :=
  ceilDivChecked_eq bits (by decide)

theorem lastBitsChecked_eq (bits : UInt64) : lastBitsChecked bits = .ok (lastBits bits) := by
  unfold lastBitsChecked lastBits
  split
  · rfl
  · next h0 =>
    have h1 : 1 ≤ bits := by
      have hne : bits.toNat ≠ 0 := toNat_ne_zero h0
      rw [UInt64.le_iff_toNat_le, UInt64.toNat_one]
      omega
    rw [Checked.sub_eq h1, Checked.ok_bind]
    refine Checked.add_eq ?_
    rw [UInt64.toNat_mod, UInt64.toNat_one, UInt64.size]
    simp only [UInt64.reduceToNat]
    omega

theorem lowMaskChecked_eq (n : UInt64) : lowMaskChecked n = .ok (lowMask n) := by
  unfold lowMaskChecked lowMask
  split
  · rfl
  · next h0 =>
    split
    · rfl
    · next h64 =>
      have hne : n.toNat ≠ 0 := toNat_ne_zero h0
      have hlt : n.toNat < 64 := by
        rw [UInt64.le_iff_toNat_le] at h64
        exact Nat.not_le.mp h64
      have hle : n ≤ 64 := by
        rw [UInt64.le_iff_toNat_le]
        exact Nat.le_of_lt hlt
      rw [Checked.sub_eq hle, Checked.ok_bind]
      refine Checked.shiftRight_eq max ?_
      rw [UInt64.lt_iff_toNat_lt, UInt64.toNat_sub_of_le _ _ hle]
      simp only [UInt64.reduceToNat]
      omega

/-- The places of every word that flags need are numbers of 64 bits. -/
theorem places_fit {bits : UInt64} {k : Nat} (h : k < (countFor bits).toNat) :
    64 * k + 64 ≤ UInt64.size := by
  have hbits := bits.toNat_lt
  rw [toNat_countFor] at h
  rw [UInt64.size]
  omega

theorem firstPlaceChecked_eq {k : Nat} (h : 64 * k < UInt64.size) :
    firstPlaceChecked k = .ok (UInt64.ofNat k * 64) := by
  have hk : k < UInt64.size := by omega
  rw [firstPlaceChecked, Checked.ofNat_eq hk, Checked.ok_bind]
  refine Checked.mul_eq ?_
  rw [UInt64.toNat_ofNat_of_lt' hk, Nat.mul_comm]
  exact h

section

variable {k : Nat} (hfit : 64 * k + 64 ≤ UInt64.size) {j : UInt64} (hj : j < 64)

include hfit hj

theorem firstPlace_add_lt : (UInt64.ofNat k * 64).toNat + j.toNat < UInt64.size := by
  rw [UInt64.lt_iff_toNat_lt] at hj
  rw [Bitmap.toNat_firstPlace (by omega)]
  exact Nat.lt_of_lt_of_le (Nat.add_lt_add_left hj _) hfit

/-- Counting on from the first place of a word does not wrap around inside the word. -/
theorem add_firstPlace_eq :
    Checked.add (UInt64.ofNat k * 64) j = .ok (UInt64.ofNat k * 64 + j) :=
  Checked.add_eq (firstPlace_add_lt hfit hj)

theorem toNat_place : (UInt64.ofNat k * 64 + j).toNat = 64 * k + j.toNat := by
  rw [UInt64.toNat_add, Nat.mod_eq_of_lt (firstPlace_add_lt hfit hj),
    Bitmap.toNat_firstPlace (by omega)]

end

/--
**Sizes are exact up to the greatest number of flags, and nothing on the way to them wraps around.**

For every number of flags the numbers of words and of bytes are the least that are enough, and so is
the number of words for these bytes. Where there is a flag, the last word keeps between one and
sixty-four of them, all words before it are full, and its mask has just the bits that keep flags. In
every word that the flags need, each place has an index of its own: as many as there are places in
the words before, and the offset in the word.
-/
theorem sizes_exact (bits : UInt64) :
    (countForChecked bits = .ok (countFor bits) ∧
      IsLeast {k : Nat | bits.toNat ≤ 64 * k} (countFor bits).toNat) ∧
    (byteCountForChecked bits = .ok (byteCountFor bits) ∧
      IsLeast {k : Nat | bits.toNat ≤ 8 * k} (byteCountFor bits).toNat) ∧
    IsLeast {k : Nat | (byteCountFor bits).toNat ≤ 8 * k} (countFor bits).toNat ∧
    lastBitsChecked bits = .ok (lastBits bits) ∧
    lowMaskChecked (lastBits bits) = .ok (lowMask (lastBits bits)) ∧
    (0 < bits →
      1 ≤ (lastBits bits).toNat ∧ (lastBits bits).toNat ≤ 64 ∧
      bits.toNat = 64 * ((countFor bits).toNat - 1) + (lastBits bits).toNat ∧
      ∀ j, (lowMask (lastBits bits)).toNat.testBit j = decide (j < (lastBits bits).toNat)) ∧
    (∀ k, k < (countFor bits).toNat → ∀ j : UInt64, j < 64 →
      firstPlaceChecked k = .ok (UInt64.ofNat k * 64) ∧
      Checked.add (UInt64.ofNat k * 64) j = .ok (UInt64.ofNat k * 64 + j) ∧
      (UInt64.ofNat k * 64 + j).toNat = 64 * k + j.toNat) := by
  refine ⟨⟨countForChecked_eq bits, isLeast_countFor bits⟩,
    ⟨byteCountForChecked_eq bits, isLeast_byteCountFor bits⟩, isLeast_countFor_bytes bits,
    lastBitsChecked_eq bits, lowMaskChecked_eq _, ?_, ?_⟩
  · intro hpos
    obtain ⟨hone, hfull⟩ := lastBits_bounds bits
    exact ⟨hone, hfull, toNat_eq_add_lastBits hpos, testBit_lowMask_lastBits bits⟩
  · intro k hk j hj
    have hfit : 64 * k + 64 ≤ UInt64.size := places_fit hk
    exact ⟨firstPlaceChecked_eq (by omega), add_firstPlace_eq hfit hj, toNat_place hfit hj⟩

/-- The greatest number of flags: its last word has one place too many, which still has an index. -/
theorem sizes_exact_most :
    0 < (0xFFFFFFFFFFFFFFFF : UInt64) ∧
    countForChecked 0xFFFFFFFFFFFFFFFF = .ok 0x400000000000000 ∧
    byteCountForChecked 0xFFFFFFFFFFFFFFFF = .ok 0x2000000000000000 ∧
    (lastBits 0xFFFFFFFFFFFFFFFF).toNat = 63 ∧
    (0xFFFFFFFFFFFFFFFF : UInt64).toNat =
      64 * ((countFor 0xFFFFFFFFFFFFFFFF).toNat - 1) + (lastBits 0xFFFFFFFFFFFFFFFF).toNat ∧
    0x3FFFFFFFFFFFFFF < (countFor 0xFFFFFFFFFFFFFFFF).toNat ∧ (63 : UInt64) < 64 ∧
    (UInt64.ofNat 0x3FFFFFFFFFFFFFF * 64 + 63).toNat = 64 * 0x3FFFFFFFFFFFFFF + 63 := by
  obtain ⟨⟨hwords, -⟩, ⟨hbytes, -⟩, -, -, -, hlast, hplaces⟩ := sizes_exact 0xFFFFFFFFFFFFFFFF
  have hpos : 0 < (0xFFFFFFFFFFFFFFFF : UInt64) := by decide
  have hword : 0x3FFFFFFFFFFFFFF < (countFor 0xFFFFFFFFFFFFFFFF).toNat := by decide
  have hplace : (63 : UInt64) < 64 := by decide
  exact ⟨hpos, hwords, hbytes, by decide, (hlast hpos).2.2.1, hword, hplace,
    (hplaces _ hword 63 hplace).2.2⟩

end Word

end PackedBits
