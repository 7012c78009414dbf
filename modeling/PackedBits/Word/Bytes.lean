import PackedBits.Word

/-!
# The bytes of a word

A word is written as eight bytes, the least significant first.

## Main statements

* `ofBytes_toBytes` — a word is read back from its bytes
* `toBytes_ofBytes` — eight bytes are written back from the word they make
-/

namespace PackedBits.Word

/-- The `n` low bytes of a number, least significant first. -/
def lowBytes : Nat → Nat → List UInt8
  | 0, _ => []
  | n + 1, v => UInt8.ofNat v :: lowBytes n (v / 256)

/-- The number that bytes make, least significant first. -/
def natOfBytes : List UInt8 → Nat
  | [] => 0
  | b :: bs => b.toNat + 256 * natOfBytes bs

/-- How many numbers `n` bytes can make. -/
def rangeOf : Nat → Nat
  | 0 => 1
  | n + 1 => 256 * rangeOf n

/-- The eight bytes of a word. -/
def toBytes (w : Word) : List UInt8 := lowBytes 8 w.toNat

/-- The word of up to eight bytes. Bytes that are missing count as zero. -/
def ofBytes (bs : List UInt8) : Word := UInt64.ofNat (natOfBytes bs)

@[simp] theorem length_lowBytes (n v : Nat) : (lowBytes n v).length = n := by
  induction n generalizing v with
  | zero => rfl
  | succ n ih => simp [lowBytes, ih]

@[simp] theorem length_toBytes (w : Word) : w.toBytes.length = 8 := length_lowBytes 8 w.toNat

theorem natOfBytes_lowBytes {n v : Nat} (h : v < rangeOf n) : natOfBytes (lowBytes n v) = v := by
  induction n generalizing v with
  | zero =>
    rw [rangeOf] at h
    rw [lowBytes, natOfBytes]
    omega
  | succ n ih =>
    rw [rangeOf] at h
    rw [lowBytes, natOfBytes, ih (Nat.div_lt_of_lt_mul h), UInt8.toNat_ofNat']
    omega

theorem natOfBytes_lt (bs : List UInt8) : natOfBytes bs < rangeOf bs.length := by
  induction bs with
  | nil => exact Nat.zero_lt_one
  | cons b bs ih =>
    have hb : b.toNat < 256 := b.toNat_lt
    rw [natOfBytes, List.length_cons, rangeOf]
    omega

theorem lowBytes_natOfBytes (bs : List UInt8) : lowBytes bs.length (natOfBytes bs) = bs := by
  induction bs with
  | nil => rfl
  | cons b bs ih =>
    have hb : b.toNat < 256 := b.toNat_lt
    rw [natOfBytes, List.length_cons, lowBytes]
    congr 1
    · apply UInt8.toNat.inj
      rw [UInt8.toNat_ofNat']
      omega
    · rw [show (b.toNat + 256 * natOfBytes bs) / 256 = natOfBytes bs by omega, ih]

theorem ofBytes_toBytes (w : Word) : ofBytes w.toBytes = w := by
  rw [ofBytes, toBytes, natOfBytes_lowBytes w.toNat_lt]
  exact UInt64.ofNat_toNat

theorem toBytes_ofBytes {bs : List UInt8} (h : bs.length = 8) : (ofBytes bs).toBytes = bs := by
  have hlt : natOfBytes bs < UInt64.size := by
    have hb := natOfBytes_lt bs
    rw [h] at hb
    exact hb
  rw [toBytes, ofBytes, UInt64.toNat_ofNat_of_lt' hlt, ← h, lowBytes_natOfBytes]

end PackedBits.Word
