import Mathlib.Data.List.Sort
import PackedBits.Proofs.Bits.Indices
import PackedBits.Proofs.Session.Reachable

/-!
# Copies of another size, flag by flag

A copy is made by whole words and masked once at the end, and yet it is exact: its flags are those
of the source as far as both go, and the others are not set. When it grows inside a word this is
owed to the padding of the source, which is zero, and when it shrinks to the mask, which is that of
the new size.

## Main statements

* `test_resized` — every flag of a copy
* `trueIndices_resized` — the indices that are set in a copy
* `resized_size` — a copy of the same size
* `copyBits_flag_by_flag` — the same for the command of a session
-/

namespace PackedBits

namespace Bitmap

/-- A copy has the flags of its source as far as it goes. -/
theorem test_resized {a : Bitmap} (ha : a.WellFormed) (bits i : UInt64) :
    (a.resized bits).test i = (a.test i && decide (i < bits)) := by
  rw [(resized_wellFormed a bits).test_eq_bit, bit_resized, ha.test_eq_bit]
  simp only [UInt64.lt_iff_toNat_lt]

/-- The indices set in a copy are those set in its source, as far as it goes. -/
theorem trueIndices_resized {a : Bitmap} (ha : a.WellFormed) (bits : UInt64) :
    (a.resized bits).trueIndices = a.trueIndices.filter (· < bits) := by
  have hcopy := (resized_wellFormed a bits).size_words
  -- both lists ascend, so it is enough that they have the same members
  refine (trueIndices_pairwise hcopy).eq_of_mem_iff
    ((trueIndices_pairwise ha.size_words).filter _) fun i => ?_
  rw [mem_trueIndices hcopy, List.mem_filter, mem_trueIndices ha.size_words, test_resized ha,
    Bool.and_eq_true]

/-- A copy of the same size is the same bitmap. -/
theorem resized_size {a : Bitmap} (ha : a.WellFormed) : a.resized a.size = a := by
  apply ext_bit (size_resized a a.size)
  · rw [size_words_resized, ha.size_words]
  · intro p
    rw [bit_resized, ha.bit_and_decide]

end Bitmap

namespace Session

/-- A copy from a slot that holds a bitmap, with one flag at least. -/
theorem step_copyBits {w : Session} {s : String} {a : Bitmap} (ha : w.slot s = some a)
    {bits : UInt64} (hbits : bits ≠ 0) (dest : String) :
    w.step (.copyBits s bits dest) =
      (⟨.ok (.flag true), if bits < a.size then [.truncating a.size bits] else []⟩,
        w.put dest (some (a.resized bits))) := by
  simp only [step, ha, Bitmap.copyBits, if_neg hbits]
  rfl

/--
**A copy of another size is exact.**

A bitmap of a reachable session, even one without flags, is copied to any size but none. The copy
is there, has that size and is well-formed. Each of its flags is that of the source, so those that
the source does not have are not set. The indices set in it are just those set in the source below
its size, in the same order. Nothing but the slot that it goes to changes, so the source does not
unless the copy takes its place. Where the size stays the same the command is as good as a plain
copy.
-/
theorem copyBits_flag_by_flag {w : Session} (hw : Reachable w) {s : String} {a : Bitmap}
    (ha : w.slot s = some a) {n : UInt64} (hn : 0 < n) (dest : String) :
    ∃ c : Bitmap,
      w.step (.copyBits s n dest) =
        (⟨.ok (.flag true), if n < a.size then [.truncating a.size n] else []⟩,
          w.put dest (some c)) ∧
      c.size = n ∧
      (∀ i, i < n → c.test i = a.test i) ∧
      (∀ i, a.size ≤ i → c.test i = false) ∧
      c.words.size = (n.toNat + 63) / 64 ∧ (∀ p, n.toNat ≤ p → c.bit p = false) ∧
      c.trueIndices = a.trueIndices.filter (· < n) ∧
      (dest ≠ s → (w.put dest (some c)).slot s = some a) ∧
      (n = a.size → c = a ∧
        (w.step (.copyBits s n dest)).2 = (w.step (.copy s dest)).2) := by
  have hwf : a.WellFormed := hw.wellFormed s a ha
  have hwfc : (a.resized n).WellFormed := Bitmap.resized_wellFormed a n
  have hn0 : n ≠ 0 := fun h => UInt64.lt_irrefl 0 (h ▸ hn)
  refine ⟨a.resized n, step_copyBits ha hn0 dest, Bitmap.size_resized a n, ?_, ?_, ?_,
    hwfc.bit_of_le, Bitmap.trueIndices_resized hwf n, ?_, ?_⟩
  · intro i hi
    rw [Bitmap.test_resized hwf, decide_eq_true hi, Bool.and_true]
  · intro i hi
    rw [UInt64.le_iff_toNat_le] at hi
    rw [Bitmap.test_resized hwf, Bitmap.test_of_le hi, Bool.false_and]
  · rw [Bitmap.size_words_resized, Word.toNat_countFor]
  · intro hdest
    rw [slot_put_of_ne w _ (Ne.symm hdest), ha]
  · rintro rfl
    have hsame : a.resized a.size = a := Bitmap.resized_size hwf
    refine ⟨hsame, ?_⟩
    rw [step_copyBits ha hn0, hsame]
    simp only [step, store, ha]

/-- Seventy flags are copied to five, and to a hundred. -/
theorem copyBits_flag_by_flag_seventy :
    ∃ w : Session, Reachable w ∧ ∃ a b c : Bitmap, w.slot "a" = some a ∧
      0 < (5 : UInt64) ∧ (w.step (.copyBits "a" 5 "b")).2 = w.put "b" (some b) ∧
      b.trueIndices = [3] ∧
      0 < (100 : UInt64) ∧ (w.step (.copyBits "a" 100 "c")).2 = w.put "c" (some c) ∧
      c.trueIndices = [3, 64] ∧ c.test 90 = false := by
  have hreach := Reachable.start.run [.create "a" 70, .set "a" 3 true, .set "a" 64 true]
  have h5 : 0 < (5 : UInt64) := by decide
  have h100 : 0 < (100 : UInt64) := by decide
  obtain ⟨b, hshrink, -, -, -, -, -, hkept, -⟩ :=
    copyBits_flag_by_flag hreach (s := "a") rfl h5 "b"
  obtain ⟨c, hgrow, -, -, hclear, -, -, hindices, -⟩ :=
    copyBits_flag_by_flag hreach (s := "a") rfl h100 "c"
  refine ⟨_, hreach, _, b, c, rfl, h5, congrArg Prod.snd hshrink, ?_, h100,
    congrArg Prod.snd hgrow, ?_, hclear 90 (by decide)⟩
  · exact hkept.trans (by decide)
  · exact hindices.trans (by decide)

end Session

end PackedBits
