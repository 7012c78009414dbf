/-!
# Storage words

A bitmap keeps its flags in 64-bit words, the flag of lowest index in the lowest bit of the first
word. This module holds the arithmetic that leads from a flag's index to its place and from a
number of flags to the number of words or bytes that hold them.

All of it is computed on 64-bit numbers, and none of it wraps around: the rounded-up quotients add
one to a quotient instead of adding to the dividend, and a mask is never shifted by the full width.

## Main statements

* `toNat_indexOf`, `toNat_offsetOf` — where the flag of an index is kept
* `toNat_countFor`, `toNat_byteCountFor` — the rounded-up quotients
* `testBit_lowMask` — which bits a mask holds
* `testBit_assign` — what changing one bit does to all of them
* `ext_testBit` — words that agree on every bit are equal
-/

namespace PackedBits

/-- Sixty-four flags, the one of lowest index in the lowest bit. -/
abbrev Word := UInt64

namespace Word

/-! ## Places -/

/-- Number of flags in a word. -/
def width : Nat := 64

/-- The word in which every flag is set. -/
def max : Word := 0xFFFFFFFFFFFFFFFF

/-- Index of the word that keeps the flag of index `i`. -/
def indexOf (i : UInt64) : UInt64 := i >>> 6

/-- Place, inside its word, of the flag of index `i`. -/
def offsetOf (i : UInt64) : UInt64 := i &&& 63

theorem toNat_indexOf (i : UInt64) : (indexOf i).toNat = i.toNat / 64 := by
  simp [indexOf, UInt64.toNat_shiftRight, Nat.shiftRight_eq_div_pow]

theorem toNat_offsetOf (i : UInt64) : (offsetOf i).toNat = i.toNat % 64 := by
  rw [offsetOf, UInt64.toNat_and]
  exact Nat.and_two_pow_sub_one_eq_mod i.toNat 6

/-! ## Sizes -/

/-- Number of words that hold `bits` flags. -/
def countFor (bits : UInt64) : UInt64 := bits / 64 + (if bits % 64 = 0 then 0 else 1)

/-- Number of bytes that hold `bits` flags. -/
def byteCountFor (bits : UInt64) : UInt64 := bits / 8 + (if bits % 8 = 0 then 0 else 1)

/--
Number of flags in the last word of `bits` flags, between 1 and 64. Without any flag there is no
last word, and the answer is that of a full one.
-/
def lastBits (bits : UInt64) : UInt64 := if bits = 0 then 64 else (bits - 1) % 64 + 1

/-- The word whose lowest `n` bits are set, and all of them from 64 on. -/
def lowMask (n : UInt64) : Word :=
  if n = 0 then 0 else if 64 ≤ n then max else max >>> (64 - n)

theorem toNat_ne_zero {n : UInt64} (h : n ≠ 0) : n.toNat ≠ 0 :=
  fun h0 => h (UInt64.toNat.inj h0)

/-- Below a number of 64 bits there are only such numbers. -/
theorem toNat_ofNat_of_lt {bits : UInt64} {p : Nat} (h : p < bits.toNat) :
    (UInt64.ofNat p).toNat = p :=
  UInt64.toNat_ofNat_of_lt' (Nat.lt_trans h bits.toNat_lt)

/-- There is room for one more in a quotient. -/
theorem toNat_div_add_one_lt (n : UInt64) {d : UInt64} (hd : 1 < d.toNat) :
    (n / d).toNat + 1 < UInt64.size := by
  have hn := n.toNat_lt
  have hhalf : n.toNat / d.toNat ≤ n.toNat / 2 := Nat.div_le_div_left hd (by decide)
  rw [UInt64.toNat_div, UInt64.size]
  omega

/-- One more than a quotient, unless nothing is left over, is the quotient rounded up. -/
theorem toNat_roundedUp (n : UInt64) {d : UInt64} (hd : 1 < d.toNat) :
    (n / d + if n % d = 0 then 0 else 1).toNat = (n.toNat + (d.toNat - 1)) / d.toNat := by
  have hroom := toNat_div_add_one_lt n hd
  have hparts : n.toNat / d.toNat * d.toNat + n.toNat % d.toNat = n.toNat :=
    Nat.div_add_mod' n.toNat d.toNat
  symm
  split
  · next h =>
    have hrest : n.toNat % d.toNat = 0 := by rw [← UInt64.toNat_mod, h, UInt64.toNat_zero]
    rw [UInt64.add_zero, UInt64.toNat_div]
    refine Nat.div_eq_of_lt_le (by omega) ?_
    rw [Nat.succ_mul]
    omega
  · next h =>
    have hrest : n.toNat % d.toNat ≠ 0 := by
      rw [← UInt64.toNat_mod]
      exact toNat_ne_zero h
    have hlt : n.toNat % d.toNat < d.toNat := Nat.mod_lt _ (by omega)
    rw [UInt64.toNat_add, UInt64.toNat_one, Nat.mod_eq_of_lt hroom, UInt64.toNat_div]
    refine Nat.div_eq_of_lt_le ?_ ?_
    · rw [Nat.succ_mul]
      omega
    · rw [Nat.succ_mul, Nat.succ_mul]
      omega

theorem toNat_countFor (bits : UInt64) : (countFor bits).toNat = (bits.toNat + 63) / 64 :=
  toNat_roundedUp bits (by decide)

theorem toNat_byteCountFor (bits : UInt64) :
    (byteCountFor bits).toNat = (bits.toNat + 7) / 8 :=
  toNat_roundedUp bits (by decide)

theorem toNat_lastBits (bits : UInt64) :
    (lastBits bits).toNat = if bits.toNat = 0 then 64 else (bits.toNat - 1) % 64 + 1 := by
  have h := bits.toNat_lt
  unfold lastBits
  by_cases h0 : bits = 0
  · simp [h0]
  · have h0' : bits.toNat ≠ 0 := toNat_ne_zero h0
    have h1 : (1 : UInt64) ≤ bits := by
      rw [UInt64.le_iff_toNat_le, show (1 : UInt64).toNat = 1 from rfl]
      omega
    rw [if_neg h0, if_neg h0', UInt64.toNat_add, UInt64.toNat_mod, UInt64.toNat_sub_of_le _ _ h1]
    simp only [UInt64.reduceToNat]
    omega

/-! ## Bit by bit -/

theorem testBit_of_le (w : Word) {j : Nat} (h : 64 ≤ j) : w.toNat.testBit j = false :=
  Nat.testBit_lt_two_pow
    (Nat.lt_of_lt_of_le w.toNat_lt (Nat.pow_le_pow_right (by decide) h))

theorem testBit_not (w : Word) (j : Nat) :
    (~~~w).toNat.testBit j = (decide (j < 64) && !w.toNat.testBit j) := by
  show (~~~w.toBitVec).toNat.testBit j = _
  rw [BitVec.testBit_toNat, BitVec.getLsbD_not]
  rfl

/-- Words that agree on every bit are equal. -/
theorem ext_testBit {w v : Word} (h : ∀ j, w.toNat.testBit j = v.toNat.testBit j) : w = v :=
  UInt64.toNat.inj (Nat.eq_of_testBit_eq h)

theorem eq_zero_iff (w : Word) : w = 0 ↔ ∀ j, w.toNat.testBit j = false := by
  constructor
  · rintro rfl j
    exact Nat.zero_testBit j
  · intro h
    exact ext_testBit fun j => (h j).trans (Nat.zero_testBit j).symm

/-! ## Single bits -/

/-- Whether the bit at place `k` is set. -/
def test (w : Word) (k : UInt64) : Bool := (w >>> k) &&& 1 == 1

/-- The word with the bit at place `k` made `v` and all others kept. -/
def assign (w : Word) (k : UInt64) (v : Bool) : Word :=
  if v then w ||| (1 <<< k) else w &&& ~~~(1 <<< k)

theorem test_eq_testBit (w : Word) {k : UInt64} (h : k.toNat < 64) :
    test w k = w.toNat.testBit k.toNat := by
  rw [test, Nat.testBit_eq_decide_div_mod_eq, Bool.eq_iff_iff, beq_iff_eq, decide_eq_true_eq]
  rw [← UInt64.toNat_inj, UInt64.toNat_and, UInt64.toNat_shiftRight]
  simp [Nat.mod_eq_of_lt h, Nat.shiftRight_eq_div_pow]

theorem testBit_max (j : Nat) : max.toNat.testBit j = decide (j < 64) := by
  rw [show max.toNat = 2 ^ 64 - 1 from rfl, Nat.testBit_two_pow_sub_one]

theorem testBit_lowMask (n : UInt64) (j : Nat) :
    (lowMask n).toNat.testBit j = decide (j < 64 ∧ j < n.toNat) := by
  have hn := n.toNat_lt
  unfold lowMask
  split
  · next h => simp [h]
  · next h =>
    have h' : n.toNat ≠ 0 := toNat_ne_zero h
    split
    · next h64 =>
      rw [UInt64.le_iff_toNat_le, show (64 : UInt64).toNat = 64 from rfl] at h64
      rw [testBit_max, decide_eq_decide]
      omega
    · next h64 =>
      have hlt : n ≤ 64 := by
        rw [UInt64.le_iff_toNat_le, show (64 : UInt64).toNat = 64 from rfl] at *
        omega
      rw [UInt64.le_iff_toNat_le, show (64 : UInt64).toNat = 64 from rfl] at h64
      rw [UInt64.toNat_shiftRight, Nat.testBit_shiftRight, testBit_max,
        UInt64.toNat_sub_of_le _ _ hlt, decide_eq_decide]
      simp only [UInt64.reduceToNat]
      omega

theorem testBit_assign (w : Word) {k : UInt64} (hk : k.toNat < 64) (v : Bool) {j : Nat}
    (hj : j < 64) :
    (assign w k v).toNat.testBit j = if j = k.toNat then v else w.toNat.testBit j := by
  have hone : ((1 : UInt64) <<< k).toNat = 2 ^ k.toNat := by
    rw [UInt64.toNat_shiftLeft]
    simp only [UInt64.reduceToNat]
    rw [Nat.mod_eq_of_lt hk, Nat.one_shiftLeft]
    exact Nat.mod_eq_of_lt (Nat.pow_lt_pow_right (by decide) hk)
  unfold assign
  cases v
  · simp only [Bool.false_eq_true, ↓reduceIte]
    rw [UInt64.toNat_and, Nat.testBit_and, testBit_not, hone, Nat.testBit_two_pow]
    by_cases h : j = k.toNat
    · simp [h]
    · simp [h, Ne.symm h, hj]
  · simp only [↓reduceIte]
    rw [UInt64.toNat_or, Nat.testBit_or, hone, Nat.testBit_two_pow]
    by_cases h : j = k.toNat
    · simp [h]
    · simp [h, Ne.symm h]

/-! ## Counting -/

/-- Number of ones in the binary form of `n`. -/
def ones (n : Nat) : Nat := if n = 0 then 0 else n % 2 + ones (n / 2)
termination_by n
decreasing_by exact Nat.div_lt_self (by omega) (by decide)

/-- Number of flags set in a word. -/
def popCount (w : Word) : Nat := ones w.toNat

end Word

end PackedBits
