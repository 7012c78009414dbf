import PackedBits.Proofs.Session.Reachable

/-!
# Updates, flag by flag

An update goes by words while sizes go by flags. The words that both bitmaps have are taken from the
source, and with them whatever stands at their places: the flags of the source, and behind its last
flag the zeros that fill its last word. So a source that ends inside a word clears the rest of that
word in the destination, and the words behind keep their flags. A source that is longer than the
destination brings bits that keep no flag there, and these are cleared.

Both bitmaps have to be well-formed. Then their sizes tell which words they have, and no padding of
the source turns up as a flag of the destination.

## Main statements

* `test_overwritten` — every flag after an update
* `overwritten_self`, `overwritten_overwritten` — updates that change nothing
* `update_word_by_word` — the same for the command of a session
-/

namespace PackedBits

namespace Bitmap

/-- Number of places in the words that both bitmaps have. -/
def commonPlaces (a b : Bitmap) : Nat :=
  64 * min ((a.size.toNat + 63) / 64) ((b.size.toNat + 63) / 64)

/-- A place of a bitmap is a common one if the other bitmap has its word. -/
theorem lt_commonPlaces_iff {a b : Bitmap} (hb : b.WellFormed) {p : Nat} (hp : p < a.size.toNat) :
    p < commonPlaces a b ↔ p / 64 < b.words.size := by
  rw [commonPlaces, hb.size_words, Word.toNat_countFor]
  omega

/-- An update takes the flags at common places from its source and keeps the others. -/
theorem test_overwritten {a src : Bitmap} (ha : a.WellFormed) (hsrc : src.WellFormed)
    (i : UInt64) :
    (a.overwritten src).test i =
      ((if i.toNat < commonPlaces a src then src.test i else a.test i) && decide (i < a.size)) := by
  rw [(overwritten_wellFormed ha.size_words src).test_eq_bit, bit_overwritten ha.size_words,
    hsrc.test_eq_bit, ha.test_eq_bit]
  simp only [UInt64.lt_iff_toNat_lt]
  by_cases hlt : i.toNat < a.size.toNat
  · simp only [lt_commonPlaces_iff hsrc hlt]
  · rw [decide_eq_false hlt, Bool.and_false, Bool.and_false]

/-- A bitmap that is updated from itself stays as it is. -/
theorem overwritten_self {a : Bitmap} (ha : a.WellFormed) : a.overwritten a = a :=
  overwritten_eq_self ha fun _ _ _ => rfl

/-- An update that is made once more changes nothing. -/
theorem overwritten_overwritten {a : Bitmap} (ha : a.WellFormed) (src : Bitmap) :
    (a.overwritten src).overwritten src = a.overwritten src := by
  refine overwritten_eq_self (overwritten_wellFormed ha.size_words src) fun p hsrc hp => ?_
  rw [size_overwritten] at hp
  rw [bit_overwritten ha.size_words, if_pos hsrc, decide_eq_true hp, Bool.and_true]

end Bitmap

namespace Session

/-- An update between two slots that hold bitmaps. -/
theorem step_update {w : Session} {s src : String} (hne : s ≠ src) {a b : Bitmap}
    (ha : w.slot s = some a) (hb : w.slot src = some b) :
    w.step (.update s src) =
      (⟨.ok .nothing, (a.update b).events⟩, w.put s (some (a.overwritten b))) := by
  simp only [step, if_neg hne, ha, hb]
  rfl

/--
**An update takes the words that both bitmaps have.**

A bitmap of a reachable session is updated from another one, in whatever way their sizes differ.
Nothing but that bitmap changes, and it keeps its size. Each of its flags is that of the source if
it lies in a word that both have, so it is cleared there if the source has no such flag, and
otherwise it is what it was. No bit past the last flag is set. The same update once more changes
nothing, nor does an update of a slot from itself, and this is not owed to such an update being
passed over.
-/
theorem update_word_by_word {w : Session} (hw : Reachable w) {s src : String} (hne : s ≠ src)
    {a b : Bitmap} (ha : w.slot s = some a) (hb : w.slot src = some b) :
    (∃ c : Bitmap,
      w.step (.update s src) = (⟨.ok .nothing, (a.update b).events⟩, w.put s (some c)) ∧
      (w.put s (some c)).slot src = some b ∧
      c.size = a.size ∧ c.words.size = a.words.size ∧
      (∀ i, i < a.size →
        c.test i = if i.toNat < a.commonPlaces b then b.test i else a.test i) ∧
      (∀ i, b.size ≤ i → i.toNat < a.commonPlaces b → c.test i = false) ∧
      (∀ p, a.size.toNat ≤ p → c.bit p = false) ∧
      ((w.put s (some c)).step (.update s src)).2 = w.put s (some c)) ∧
    (∀ t : String, w.step (.update t t) = (.plain .nothing, w)) ∧
    (a.update a).value = a := by
  have hwfa : a.WellFormed := hw.wellFormed s a ha
  have hwfb : b.WellFormed := hw.wellFormed src b hb
  have hwfc : (a.overwritten b).WellFormed := Bitmap.overwritten_wellFormed hwfa.size_words b
  have hsrc : (w.put s (some (a.overwritten b))).slot src = some b := by
    rw [slot_put_of_ne w _ (Ne.symm hne), hb]
  refine ⟨⟨a.overwritten b, step_update hne ha hb, hsrc, Bitmap.size_overwritten a b,
    Bitmap.size_words_overwritten a b, ?_, ?_, hwfc.bit_of_le, ?_⟩, ?_,
    Bitmap.overwritten_self hwfa⟩
  · intro i hi
    rw [Bitmap.test_overwritten hwfa hwfb, decide_eq_true hi, Bool.and_true]
  · intro i hi hcommon
    rw [UInt64.le_iff_toNat_le] at hi
    rw [Bitmap.test_overwritten hwfa hwfb, if_pos hcommon, Bitmap.test_of_le hi, Bool.false_and]
  · rw [step_update hne (slot_put_self w s _) hsrc, Bitmap.overwritten_overwritten hwfa, put_put]
  · intro t
    simp only [step, if_pos, ask]

/--
A hundred and thirty flags and a source of seventy. Flag 3 is taken over, flag 100 lies in the last
word of the source but past its end, and flag 129 is in a word that the source does not have.
-/
theorem update_word_by_word_shorter :
    ∃ w : Session, Reachable w ∧ "a" ≠ "b" ∧ ∃ a b c : Bitmap,
      w.slot "a" = some a ∧ w.slot "b" = some b ∧
      (w.step (.update "a" "b")).2 = w.put "a" (some c) ∧
      c.test 3 = true ∧ c.test 100 = false ∧ c.test 129 = true := by
  have hreach := Reachable.start.run
    [.create "a" 130, .create "b" 70, .set "a" 100 true, .set "a" 129 true, .set "b" 3 true]
  have hne : "a" ≠ "b" := by decide
  obtain ⟨⟨c, hstep, -, -, -, hflags, hcleared, -⟩, -⟩ :=
    update_word_by_word hreach hne rfl rfl
  refine ⟨_, hreach, hne, _, _, c, rfl, rfl, congrArg Prod.snd hstep, ?_, ?_, ?_⟩
  · exact (hflags 3 (by decide)).trans (by decide)
  · exact hcleared 100 (by decide) (by decide)
  · exact (hflags 129 (by decide)).trans (by decide)

end Session

end PackedBits
