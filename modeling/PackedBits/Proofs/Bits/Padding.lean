import PackedBits.Bitmap.Padding

/-!
# Padding, bit by bit

Padding is looked for and cleared in the last word only, and each time under a mask made anew. Where
the number of words is right that is enough: every bit past the last flag is in the last word, or
there is no word at all. The words may hold anything, since this is what decoders and copies start
from.

## Main statements

* `hasPadding_iff` — where the padding is that is found
* `clearPadding_eq_self_iff` — clearing changes just what was found
* `padding_exact` — both, and what clearing leaves
-/

namespace PackedBits.Bitmap

/-- A bit that is set is in one of the words. -/
theorem lt_of_bit {a : Bitmap} {p : Nat} (h : a.bit p = true) : p < 64 * a.words.size := by
  by_cases hp : a.words.size ≤ p / 64
  · rw [bit_of_words_le hp] at h
    cases h
  · omega

/-- There is nothing to clear in a well-formed bitmap. -/
theorem clearPadding_eq_self {a : Bitmap} (ha : a.WellFormed) : a.clearPadding = a := by
  apply ext_bit (size_clearPadding a) (size_words_clearPadding a)
  intro p
  rw [bit_clearPadding ha.size_words, ha.bit_and_decide]

section

variable {a : Bitmap} (ha : a.words.size = (Word.countFor a.size).toNat)

include ha

/-- Padding is found just if some bit of the words is set that keeps no flag. -/
theorem hasPadding_iff :
    a.hasPadding = true ↔ ∃ p, a.size.toNat ≤ p ∧ p < 64 * a.words.size ∧ a.bit p = true := by
  rw [← Bool.not_eq_false, hasPadding_eq_false_iff ha]
  constructor
  · intro h
    obtain ⟨p, hp⟩ := Classical.not_forall.mp h
    obtain ⟨hle, hbit⟩ := Classical.not_imp.mp hp
    rw [Bool.not_eq_false] at hbit
    exact ⟨p, hle, lt_of_bit hbit, hbit⟩
  · rintro ⟨p, hle, -, hbit⟩ h
    rw [h p hle] at hbit
    cases hbit

/-- Clearing leaves a bitmap as it is just if no padding was found. -/
theorem clearPadding_eq_self_iff : a.clearPadding = a ↔ a.hasPadding = false := by
  rw [hasPadding_eq_false_iff ha]
  constructor
  · intro h
    have hwf : a.clearPadding.WellFormed := clearPadding_wellFormed ha
    rw [h] at hwf
    exact hwf.bit_of_le
  · intro h
    exact clearPadding_eq_self ⟨ha, h⟩

end

/--
**Padding is found exactly, and cleared exactly.**

A bitmap with the right number of words, whatever is in them: any number of flags, none included, and
any last word. Padding is found just if one of the bits between the last flag and the end of the words
is set. Clearing makes these bits zero and keeps those of the flags, and the sizes. Then no padding is
found, clearing once more changes nothing, and clearing at all changes something just if padding
was found before.
-/
theorem padding_exact {a : Bitmap} (ha : a.words.size = (a.size.toNat + 63) / 64) :
    (a.hasPadding = true ↔ ∃ p, a.size.toNat ≤ p ∧ p < 64 * a.words.size ∧ a.bit p = true) ∧
    (∀ p, p < a.size.toNat → a.clearPadding.bit p = a.bit p) ∧
    (∀ p, a.size.toNat ≤ p → a.clearPadding.bit p = false) ∧
    a.clearPadding.size = a.size ∧ a.clearPadding.words.size = a.words.size ∧
    a.clearPadding.hasPadding = false ∧
    a.clearPadding.clearPadding = a.clearPadding ∧
    (a.clearPadding = a ↔ a.hasPadding = false) := by
  rw [← Word.toNat_countFor] at ha
  have hwf : a.clearPadding.WellFormed := clearPadding_wellFormed ha
  refine ⟨hasPadding_iff ha, ?_, hwf.bit_of_le, size_clearPadding a, size_words_clearPadding a,
    (hasPadding_eq_false_iff hwf.size_words).mpr hwf.bit_of_le, clearPadding_eq_self hwf,
    clearPadding_eq_self_iff ha⟩
  intro p hp
  rw [bit_clearPadding ha, decide_eq_true hp, Bool.and_true]

/-- Seventy flags, with the bit behind the last one set too. -/
theorem padding_exact_seventy :
    ∃ a : Bitmap, a = ⟨70, #[Word.max, 0x7F]⟩ ∧ a.words.size = (a.size.toNat + 63) / 64 ∧
      a.hasPadding = true ∧ a.clearPadding ≠ a ∧
      a.clearPadding.bit 69 = true ∧ a.clearPadding.bit 70 = false := by
  have hsize : (⟨70, #[Word.max, 0x7F]⟩ : Bitmap).words.size = (70 + 63) / 64 := by decide
  obtain ⟨hfound, hkept, hcleared, -, -, -, -, hsame⟩ := padding_exact hsize
  have hpadding := hfound.mpr ⟨70, by decide, by decide, by decide⟩
  refine ⟨_, rfl, hsize, hpadding, ?_, ?_, hcleared 70 (by decide)⟩
  · intro h
    rw [hsame.mp h] at hpadding
    cases hpadding
  · exact (hkept 69 (by decide)).trans (by decide)

end PackedBits.Bitmap
