import PackedBits.Bitmap.Query

/-!
# The indices of the flags that are set

The scan goes through the words one after the other, passes over those that are zero, and leaves a
word at the first place that keeps no flag. Nothing is lost by any of that: a zero word has no flag
set, and the places are tried in ascending order, so behind one that keeps no flag there is none
that does.

So the scan of one word finds just the flags set among its places, and after any number of words
the whole scan has found just the flags set below the next one. The latter is the invariant that
the induction over the words carries.

## Main statements

* `takeWhile_eq_filter` — stopping early loses nothing in an ascending order
* `wordIndices_eq_filter` — what the scan of one word finds
* `flatMap_wordIndices` — what the scan has found after some words
* `trueIndices_eq_filter` — what the whole scan finds
* `mem_trueIndices`, `trueIndices_pairwise` — its members, and their order
-/

namespace PackedBits

/-- What holds only up to some element of a list holds of just the elements before it. -/
theorem takeWhile_eq_filter {α : Type} {P : α → Bool} {l : List α}
    (h : l.Pairwise fun x y => P y = true → P x = true) : l.takeWhile P = l.filter P := by
  induction l with
  | nil => rfl
  | cons x l ih =>
    obtain ⟨hhead, htail⟩ := List.pairwise_cons.mp h
    by_cases hx : P x = true
    · rw [List.takeWhile_cons_of_pos hx, List.filter_cons_of_pos hx, ih htail]
    · have hnone : l.filter P = [] :=
        List.filter_eq_nil_iff.mpr fun y hy hPy => hx (hhead y hy hPy)
      rw [List.takeWhile_cons_of_neg hx, List.filter_cons_of_neg hx, hnone]

namespace Bitmap

/-! ## Places -/

/-- The indices of `n` places in a row, from place `first` on. -/
def places (first n : Nat) : List UInt64 := (List.range' first n).map UInt64.ofNat

theorem places_add (first m n : Nat) :
    places first (m + n) = places first m ++ places (first + m) n := by
  rw [places, places, places, ← List.map_append, List.range'_append_1]

/-- The index of the first place of word `k`. -/
theorem toNat_firstPlace {k : Nat} (h : 64 * k < UInt64.size) :
    (UInt64.ofNat k * 64).toNat = 64 * k := by
  have hk : (UInt64.ofNat k).toNat = k := UInt64.toNat_ofNat_of_lt' (by omega)
  rw [UInt64.toNat_mul, hk, Nat.mul_comm]
  exact Nat.mod_eq_of_lt h

/-- The places of word `k`. -/
theorem map_offsets (k : Nat) : offsets.map (UInt64.ofNat k * 64 + ·) = places (64 * k) 64 := by
  rw [offsets, places, List.range'_eq_map_range, List.map_map, List.map_map, Word.width]
  refine List.map_congr_left fun j _ => ?_
  rw [Function.comp_apply, Function.comp_apply, UInt64.ofNat_add, UInt64.ofNat_mul, UInt64.mul_comm]
  rfl

section

variable {first n : Nat} (hfit : first + n ≤ UInt64.size)

include hfit

theorem mem_places (i : UInt64) :
    i ∈ places first n ↔ first ≤ i.toNat ∧ i.toNat < first + n := by
  rw [places, List.mem_map]
  constructor
  · rintro ⟨p, hp, rfl⟩
    rw [List.mem_range'_1] at hp
    rwa [UInt64.toNat_ofNat_of_lt' (Nat.lt_of_lt_of_le hp.2 hfit)]
  · intro hi
    exact ⟨i.toNat, List.mem_range'_1.mpr hi, UInt64.ofNat_toNat⟩

theorem places_pairwise : (places first n).Pairwise (· < ·) := by
  rw [places, List.pairwise_map]
  refine (List.pairwise_lt_range' 1).imp_of_mem fun {p q} hp hq hlt => ?_
  rw [List.mem_range'_1] at hp hq
  rwa [UInt64.lt_iff_toNat_lt, UInt64.toNat_ofNat_of_lt' (Nat.lt_of_lt_of_le hp.2 hfit),
    UInt64.toNat_ofNat_of_lt' (Nat.lt_of_lt_of_le hq.2 hfit)]

end

/-! ## One word -/

/-- A flag is found in its word as far from the first place as its index is. -/
theorem test_eq_test_sub {a : Bitmap} {k : Nat} (hk : k < a.words.size)
    (hfit : 64 * k < UInt64.size) {i : UInt64} (hi : i.toNat / 64 = k) :
    a.test i = (Word.test a.words[k] (i - UInt64.ofNat k * 64) && decide (i < a.size)) := by
  have hbase : (UInt64.ofNat k * 64).toNat = 64 * k := toNat_firstPlace hfit
  have hle : UInt64.ofNat k * 64 ≤ i := by
    rw [UInt64.le_iff_toNat_le, hbase]
    omega
  have hoffset : i - UInt64.ofNat k * 64 = Word.offsetOf i := by
    apply UInt64.toNat.inj
    rw [UInt64.toNat_sub_of_le _ _ hle, hbase, Word.toNat_offsetOf]
    omega
  have hword : a.words.getD (Word.indexOf i).toNat 0 = a.words[k] := by
    rw [Word.toNat_indexOf, hi, Array.getD_eq_getD_getElem?, Array.getElem?_eq_getElem hk,
      Option.getD_some]
  rw [test, hword, hoffset]
  by_cases hlt : i < a.size
  · rw [if_pos hlt, decide_eq_true hlt, Bool.and_true]
  · rw [if_neg hlt, decide_eq_false hlt, Bool.and_false]

/-- The scan of a word finds the flags that are set among its places. -/
theorem wordIndices_eq_filter {a : Bitmap} {k : Nat} (hk : k < a.words.size)
    (hfit : 64 * k + 64 ≤ UInt64.size) :
    wordIndices a.size k a.words[k] = (places (64 * k) 64).filter a.test := by
  have htest : ∀ i ∈ places (64 * k) 64,
      a.test i = (Word.test a.words[k] (i - UInt64.ofNat k * 64) && decide (i < a.size)) := by
    intro i hi
    rw [mem_places hfit] at hi
    exact test_eq_test_sub hk (by omega) (by omega)
  rw [wordIndices, List.filter_congr htest]
  by_cases hzero : a.words[k] = 0
  -- the skip: no place of a zero word is set
  · rw [if_pos hzero, hzero]
    refine (List.filter_eq_nil_iff.mpr fun i _ => ?_).symm
    simp [Word.test]
  -- the early end: places ascend, so none that keeps a flag comes after one that does not
  · have hascending : (places (64 * k) 64).Pairwise fun x y =>
        decide (y < a.size) = true → decide (x < a.size) = true := by
      refine (places_pairwise hfit).imp fun {x y} hxy hy => ?_
      rw [decide_eq_true_eq] at hy ⊢
      exact UInt64.lt_trans hxy hy
    rw [if_neg hzero]
    simp only [map_offsets, takeWhile_eq_filter hascending, List.filter_filter]

/-! ## All words -/

/-- After some words the scan has found the flags that are set among the places of these words. -/
theorem flatMap_wordIndices {a : Bitmap} (hfit : 64 * a.words.size ≤ UInt64.size) {k : Nat}
    (hk : k ≤ a.words.size) :
    ((a.words.toList.zipIdx.take k).flatMap fun (w, j) => wordIndices a.size j w) =
      (places 0 (64 * k)).filter a.test := by
  induction k with
  | zero => rfl
  | succ k ih =>
    have hword : a.words.toList.zipIdx[k]? = some (a.words[k], k) := by
      simp [List.getElem?_zipIdx, Array.getElem?_eq_getElem (show k < a.words.size by omega)]
    rw [List.take_add_one, hword, List.flatMap_append, ih (by omega), Nat.mul_succ, places_add,
      List.filter_append, Nat.zero_add, ← wordIndices_eq_filter (by omega) (by omega)]
    simp

section

variable {a : Bitmap} (ha : a.words.size = (Word.countFor a.size).toNat)

include ha

/-- **The scan finds the flags that are set, and these in order.** -/
theorem trueIndices_eq_filter : a.trueIndices = (places 0 a.size.toNat).filter a.test := by
  have hsize : a.size.toNat < UInt64.size := a.size.toNat_lt
  -- the last word may have places that keep no flag
  obtain ⟨rest, hrest⟩ := Nat.exists_eq_add_of_le (size_le_places ha)
  have hfit : 64 * a.words.size ≤ UInt64.size := by
    rw [Word.toNat_countFor] at ha
    rw [UInt64.size] at hsize ⊢
    omega
  have hscan := flatMap_wordIndices hfit (Nat.le_refl a.words.size)
  have hnone : (places (0 + a.size.toNat) rest).filter a.test = [] := by
    refine List.filter_eq_nil_iff.mpr fun i hi => ?_
    rw [mem_places (by omega)] at hi
    rw [test_of_le (by omega)]
    exact Bool.false_ne_true
  rw [hrest, places_add, List.filter_append, hnone, List.append_nil] at hscan
  rw [trueIndices, ← hscan, List.take_of_length_le (by simp)]

theorem mem_trueIndices (i : UInt64) : i ∈ a.trueIndices ↔ a.test i = true := by
  have hsize : a.size.toNat < UInt64.size := a.size.toNat_lt
  rw [trueIndices_eq_filter ha, List.mem_filter, mem_places (by omega)]
  refine and_iff_right_of_imp fun htest => ⟨Nat.zero_le _, ?_⟩
  rw [Nat.zero_add]
  exact UInt64.lt_iff_toNat_lt.mp (lt_size_of_test htest)

theorem trueIndices_pairwise : a.trueIndices.Pairwise (· < ·) := by
  have hsize : a.size.toNat < UInt64.size := a.size.toNat_lt
  rw [trueIndices_eq_filter ha]
  exact (places_pairwise (by omega)).filter _

end

end Bitmap

end PackedBits
