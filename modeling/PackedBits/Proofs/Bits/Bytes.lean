import PackedBits.Bitmap.Bytes

/-!
# The bits of a byte string

A byte string is a row of bits, that of lowest index in the lowest bit of the first byte. A bitmap
is a row of bits too (`Bitmap.bit`), so a bitmap and its bytes can be compared bit by bit, whatever
the words and the bytes they are cut into.

## Main statements

* `testBit_ofBytes` — a word made of bytes has the bits of these bytes
* `Bytes.bit_flatMap_toBytes` — the bytes of words have the bits of these words
* `bit_packed` — the words made of a byte string have its bits
* `ext_bit` — byte strings of one length that agree on every bit are equal
-/

namespace PackedBits

namespace Bytes

/-- The bit at position `p` of a byte string. Past the last byte it is `false`. -/
def bit (bytes : List UInt8) (p : Nat) : Bool := (bytes.getD (p / 8) 0).toNat.testBit (p % 8)

/-! ## Parts of a byte string -/

theorem bit_nil (p : Nat) : bit [] p = false := by
  simp [bit]

theorem bit_cons (b : UInt8) (bytes : List UInt8) (p : Nat) :
    bit (b :: bytes) p = if p < 8 then b.toNat.testBit p else bit bytes (p - 8) := by
  by_cases hp : p < 8
  · rw [if_pos hp, bit, show p / 8 = 0 by omega, show p % 8 = p by omega, List.getD_cons_zero]
  · rw [if_neg hp, bit, bit, show p / 8 = (p - 8) / 8 + 1 by omega,
      show p % 8 = (p - 8) % 8 by omega, List.getD_cons_succ]

theorem bit_of_le {bytes : List UInt8} {p : Nat} (h : 8 * bytes.length ≤ p) :
    bit bytes p = false := by
  have hk : bytes.length ≤ p / 8 := by omega
  simp [bit, List.getElem?_eq_none hk]

theorem bit_append (as bs : List UInt8) (p : Nat) :
    bit (as ++ bs) p = if p < 8 * as.length then bit as p else bit bs (p - 8 * as.length) := by
  simp only [bit, List.getD_eq_getElem?_getD, List.getElem?_append]
  by_cases hp : p < 8 * as.length
  · rw [if_pos hp, if_pos (by omega)]
  · rw [if_neg hp, if_neg (by omega), show p / 8 - as.length = (p - 8 * as.length) / 8 by omega,
      show p % 8 = (p - 8 * as.length) % 8 by omega]

theorem bit_take (n : Nat) (bytes : List UInt8) (p : Nat) :
    bit (bytes.take n) p = (bit bytes p && decide (p < 8 * n)) := by
  simp only [bit, List.getD_eq_getElem?_getD, List.getElem?_take]
  by_cases hp : p < 8 * n
  · rw [if_pos (by omega), decide_eq_true hp, Bool.and_true]
  · rw [if_neg (by omega), decide_eq_false hp, Bool.and_false]
    simp

theorem bit_drop (n : Nat) (bytes : List UInt8) (p : Nat) :
    bit (bytes.drop n) p = bit bytes (8 * n + p) := by
  simp only [bit, List.getD_eq_getElem?_getD, List.getElem?_drop]
  rw [show (8 * n + p) / 8 = n + p / 8 by omega, show (8 * n + p) % 8 = p % 8 by omega]

theorem bit_replicate_zero (n p : Nat) : bit (List.replicate n 0) p = false := by
  simp only [bit, List.getD_eq_getElem?_getD, List.getElem?_replicate]
  split
  · simp
  · simp

/-- Byte strings of one length that agree on every bit are equal. -/
theorem ext_bit {as bs : List UInt8} (hlen : as.length = bs.length)
    (hbit : ∀ p, bit as p = bit bs p) : as = bs := by
  apply List.ext_getElem hlen
  intro k hk hk'
  apply UInt8.toNat.inj
  apply Nat.eq_of_testBit_eq
  intro j
  by_cases hj : j < 8
  · have h := hbit (8 * k + j)
    simp only [bit, show (8 * k + j) / 8 = k by omega, show (8 * k + j) % 8 = j by omega] at h
    simpa [hk, hk'] using h
  -- a byte has no bit beyond its eighth
  · rw [Nat.testBit_lt_two_pow (Nat.lt_of_lt_of_le as[k].toNat_lt
        (Nat.pow_le_pow_right (by decide) (by omega))),
      Nat.testBit_lt_two_pow (Nat.lt_of_lt_of_le bs[k].toNat_lt
        (Nat.pow_le_pow_right (by decide) (by omega)))]

/-! ## Words and bytes -/

/-- A number is written eight bits at a time, the lowest first. -/
theorem lowBytes_eq_map (n v : Nat) :
    Word.lowBytes n v = (List.range n).map fun k => UInt8.ofNat (v >>> (8 * k)) := by
  induction n generalizing v with
  | zero => rfl
  | succ n ih =>
    have hshift : ∀ k, v >>> (8 * (k + 1)) = (v / 256) >>> (8 * k) := by
      intro k
      rw [Nat.mul_add, Nat.add_comm, Nat.shiftRight_add]
      exact congrArg (· >>> (8 * k)) (Nat.shiftRight_eq_div_pow v 8)
    rw [Word.lowBytes, ih, List.range_succ_eq_map, List.map_cons, List.map_map]
    congr 1
    exact List.map_congr_left fun k _ => congrArg UInt8.ofNat (hshift k).symm

theorem testBit_natOfBytes (bytes : List UInt8) (p : Nat) :
    (Word.natOfBytes bytes).testBit p = bit bytes p := by
  induction bytes generalizing p with
  | nil => rw [Word.natOfBytes, Nat.zero_testBit, bit_nil]
  | cons b bytes ih =>
    rw [Word.natOfBytes, Nat.add_comm, show (256 : Nat) = 2 ^ 8 from rfl,
      Nat.testBit_two_pow_mul_add _ b.toNat_lt, bit_cons, ih]

/-- A word made of bytes has the bits of these bytes. -/
theorem testBit_ofBytes {bytes : List UInt8} (h : bytes.length ≤ 8) (p : Nat) :
    (Word.ofBytes bytes).toNat.testBit p = bit bytes p := by
  rw [Word.ofBytes, UInt64.toNat_ofNat', Nat.testBit_mod_two_pow, testBit_natOfBytes]
  by_cases hp : p < 64
  · rw [decide_eq_true hp, Bool.true_and]
  · rw [decide_eq_false hp, Bool.false_and, bit_of_le (by omega)]

/-- Bytes that are missing count as zero. -/
theorem ofBytes_append_zeros {bytes : List UInt8} {n : Nat} (h : bytes.length + n ≤ 8) :
    Word.ofBytes (bytes ++ List.replicate n 0) = Word.ofBytes bytes := by
  refine Word.ext_testBit fun p => ?_
  rw [testBit_ofBytes (by rw [List.length_append, List.length_replicate]; exact h),
    testBit_ofBytes (by omega), bit_append, bit_replicate_zero]
  split
  · rfl
  · rw [bit_of_le (by omega)]

theorem bit_toBytes (w : Word) (p : Nat) : bit w.toBytes p = w.toNat.testBit p := by
  rw [← testBit_ofBytes (Nat.le_of_eq (Word.length_toBytes w)), Word.ofBytes_toBytes]

theorem length_flatMap_toBytes (ws : List Word) :
    (ws.flatMap Word.toBytes).length = 8 * ws.length := by
  induction ws with
  | nil => rfl
  | cons w ws ih =>
    rw [List.flatMap_cons, List.length_append, ih, Word.length_toBytes, List.length_cons]
    omega

/-- The bytes of words have the bits of these words. -/
theorem bit_flatMap_toBytes (ws : List Word) (p : Nat) :
    bit (ws.flatMap Word.toBytes) p = (ws.getD (p / 64) 0).toNat.testBit (p % 64) := by
  induction ws generalizing p with
  | nil => simp [bit_nil]
  | cons w ws ih =>
    rw [List.flatMap_cons, bit_append, Word.length_toBytes]
    by_cases hp : p < 64
    · rw [if_pos hp, bit_toBytes, show p / 64 = 0 by omega, show p % 64 = p by omega,
        List.getD_cons_zero]
    · rw [if_neg hp, ih, show p / 64 = (p - 64) / 64 + 1 by omega,
        show p % 64 = (p - 64) % 64 by omega, List.getD_cons_succ]

end Bytes

namespace Bitmap

/-! ## Bitmaps and bytes -/

/-- The bytes of all words have the bits of the bitmap. -/
theorem bit_flatMap_toBytes (a : Bitmap) (p : Nat) :
    Bytes.bit (a.words.toList.flatMap Word.toBytes) p = a.bit p := by
  rw [Bytes.bit_flatMap_toBytes, bit, List.getD_eq_getElem?_getD, Array.getElem?_toList,
    Array.getD_eq_getD_getElem?]

/-! ## Groups of eight -/

theorem length_octets (bytes : List UInt8) : (octets bytes).length = (bytes.length + 7) / 8 := by
  fun_induction octets bytes with
  | case1 => rfl
  | case2 b bytes ih =>
    rw [List.length_cons, ih, List.length_drop, List.length_cons]
    omega

/-- The group of index `k` starts at byte `8 * k` and is there just if that byte is. -/
theorem getElem?_octets (bytes : List UInt8) (k : Nat) :
    (octets bytes)[k]? =
      if 8 * k < bytes.length then some ((bytes.drop (8 * k)).take 8) else none := by
  fun_induction octets bytes generalizing k with
  | case1 => simp
  | case2 b bytes ih =>
    cases k with
    | zero => simp
    | succ k =>
      rw [List.getElem?_cons_succ, ih, List.drop_drop, List.length_drop, List.length_cons,
        show 8 * (k + 1) = 7 + 8 * k + 1 by omega, List.drop_succ_cons]
      by_cases hk : 8 * k < bytes.length - 7
      · rw [if_pos hk, if_pos (by omega)]
      · rw [if_neg hk, if_neg (by omega)]

/-- The groups are made of the bytes and of nothing else. -/
theorem flatten_octets (bytes : List UInt8) : (octets bytes).flatten = bytes := by
  fun_induction octets bytes with
  | case1 => rfl
  | case2 b bytes ih => rw [List.flatten_cons, ih, List.cons_append, List.take_append_drop]

theorem length_of_mem_octets {bytes group : List UInt8} (h : group ∈ octets bytes) :
    0 < group.length ∧ group.length ≤ 8 := by
  obtain ⟨k, hk⟩ := List.mem_iff_getElem?.mp h
  rw [getElem?_octets] at hk
  split at hk
  · next hlt =>
    obtain rfl := Option.some.inj hk
    rw [List.length_take, List.length_drop]
    omega
  · cases hk

/-- The words made of a byte string, for `bits` flags. Nothing is checked. -/
def packed (bits : UInt64) (bytes : List UInt8) : Bitmap :=
  ⟨bits, ((octets bytes).map Word.ofBytes).toArray⟩

@[simp] theorem size_packed (bits : UInt64) (bytes : List UInt8) :
    (packed bits bytes).size = bits := rfl

theorem size_words_packed {bits : UInt64} {bytes : List UInt8}
    (h : bytes.length = (Word.byteCountFor bits).toNat) :
    (packed bits bytes).words.size = (Word.countFor bits).toNat := by
  rw [packed, List.size_toArray, List.length_map, length_octets, h, Word.toNat_byteCountFor,
    Word.toNat_countFor]
  omega

/-- The words made of a byte string have its bits. -/
theorem bit_packed (bits : UInt64) (bytes : List UInt8) (p : Nat) :
    (packed bits bytes).bit p = Bytes.bit bytes p := by
  simp only [bit, packed, Array.getD_eq_getD_getElem?, List.getElem?_toArray, List.getElem?_map,
    getElem?_octets]
  by_cases hk : 8 * (p / 64) < bytes.length
  · have hlen : ((bytes.drop (8 * (p / 64))).take 8).length ≤ 8 := List.length_take_le 8 _
    rw [if_pos hk, Option.map_some, Option.getD_some, Bytes.testBit_ofBytes hlen,
      Bytes.bit_take, Bytes.bit_drop, decide_eq_true (by omega), Bool.and_true,
      show 8 * (8 * (p / 64)) + p % 64 = p by omega]
  · rw [if_neg hk, Option.map_none, Option.getD_none, Bytes.bit_of_le (by omega)]
    simp

end Bitmap

end PackedBits
