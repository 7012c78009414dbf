import Mathlib.Data.List.Sort
import PackedBits.Proofs.Bits.Indices
import PackedBits.Proofs.Session.Reachable

/-!
# The list of set indices is exact

The list of set indices is what trying all indices in order would give: those below the number of
flags whose flag is set, each once. It goes by flags alone, so bitmaps with the same flags set have
the same list, even if one of them has more flags, or more words, than the other.

## Main statements

* `trueIndices_eq_iff` — the list holds the flags that are set and nothing else
* `trueIndices_exact` — the list that a session replies with
-/

namespace PackedBits

namespace Bitmap

/-- Bitmaps have the same set indices if they have the same flags set, whatever their sizes. -/
theorem trueIndices_eq_iff {a b : Bitmap} (ha : a.WellFormed) (hb : b.WellFormed) :
    a.trueIndices = b.trueIndices ↔ ∀ i, a.test i = b.test i := by
  constructor
  · intro h i
    rw [Bool.eq_iff_iff, ← mem_trueIndices ha.size_words, ← mem_trueIndices hb.size_words, h]
  · intro h
    refine (trueIndices_pairwise ha.size_words).eq_of_mem_iff
      (trueIndices_pairwise hb.size_words) fun i => ?_
    rw [mem_trueIndices ha.size_words, mem_trueIndices hb.size_words, h]

end Bitmap

namespace Session

/--
**The set indices are those of the flags that are set, in ascending order.**

A session that is asked for the set indices of a bitmap, with any number of flags, replies with a
list that ascends strictly, so nothing is in it twice. All of its members are in range, and an index
is a member just if its flag is set. That is, skipping zero words and leaving the last word early
makes no difference: the list is that of all indices in range without those whose flag is not set.
-/
theorem trueIndices_exact {w : Session} (hw : Reachable w) {s : String} {a : Bitmap}
    (ha : w.slot s = some a) :
    w.step (.trueIndices s) = (.plain (.indices a.trueIndices), w) ∧
    (∀ i, w.step (.test s i) = (.plain (.flag (a.test i)), w)) ∧
    a.trueIndices.Pairwise (· < ·) ∧
    (∀ i ∈ a.trueIndices, i < a.size) ∧
    (∀ i, i ∈ a.trueIndices ↔ a.test i = true) ∧
    a.trueIndices = ((List.range a.size.toNat).map UInt64.ofNat).filter a.test := by
  have hwords := (hw.wellFormed s a ha).size_words
  have hmem : ∀ i, i ∈ a.trueIndices ↔ a.test i = true := Bitmap.mem_trueIndices hwords
  refine ⟨?_, ?_, Bitmap.trueIndices_pairwise hwords, ?_, hmem, ?_⟩
  · simp only [step, askPresent, ask, ha, Option.elim_some]
  · intro i
    simp only [step, ask, ha, Slot.test, Option.elim_some]
  · intro i hi
    exact Bitmap.lt_size_of_test ((hmem i).mp hi)
  · rw [Bitmap.trueIndices_eq_filter hwords, Bitmap.places, List.range_eq_range']

/-- Two hundred flags: the second word is zero, and so is the third but for its last place. -/
theorem trueIndices_exact_skipped :
    ∃ w : Session, Reachable w ∧ ∃ a : Bitmap, w.slot "s" = some a ∧
      w.step (.trueIndices "s") = (.plain (.indices [3, 63, 191, 199]), w) ∧
      a.test 191 = true ∧ a.test 64 = false := by
  have hreach := Reachable.start.run
    [.create "s" 200, .set "s" 3 true, .set "s" 63 true, .set "s" 191 true, .set "s" 199 true]
  obtain ⟨hstep, -, -, -, hmem, hfilter⟩ := trueIndices_exact hreach (s := "s") rfl
  have hlist := hfilter.trans (show _ = [3, 63, 191, 199] by decide)
  rw [hlist] at hstep hmem
  refine ⟨_, hreach, _, rfl, hstep, (hmem 191).mp (by decide), ?_⟩
  rw [← Bool.not_eq_true, ← hmem 64]
  decide

end Session

end PackedBits
