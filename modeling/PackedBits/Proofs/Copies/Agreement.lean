import PackedBits.Proofs.Copies.Resize
import PackedBits.Proofs.Copies.Update
import PackedBits.Proofs.Session.Canonical

/-!
# Copies that come to the same

Flags get from one bitmap into another of some size in more than one way: by a copy of that size, by
an update of a bitmap that has the size already, and by a copy of a copy. Each way is exact, and yet
they need not agree.

* An update keeps the flags of its destination in those words that the source does not have. A copy
  has zeros there, so the two agree just if there was nothing to keep.
* A copy of a copy cannot have what the first one cut off. It agrees with a single copy just if that
  one does not have it either.

## Main statements

* `overwritten_eq_resized_iff` — an update against a copy
* `resized_resized_eq_iff` — a copy of a copy against a copy
* `update_agrees`, `copyBits_twice` — the same for the commands of a session
-/

namespace PackedBits

namespace Bitmap

/-! ## An update against a copy -/

/-- No flag of a bitmap is behind its words. -/
theorem test_of_places_le {a : Bitmap} {i : UInt64}
    (h : 64 * ((a.size.toNat + 63) / 64) ≤ i.toNat) : a.test i = false :=
  test_of_le (by omega)

/-- A flag of the destination is taken from the source just as far as the source has words. -/
theorem test_overwritten_of_lt {a src : Bitmap} (ha : a.WellFormed) (hsrc : src.WellFormed)
    {i : UInt64} (hi : i < a.size) :
    (a.overwritten src).test i =
      if i.toNat < 64 * ((src.size.toNat + 63) / 64) then src.test i else a.test i := by
  have hcommon : i.toNat < commonPlaces a src ↔
      i.toNat < 64 * ((src.size.toNat + 63) / 64) := by
    rw [UInt64.lt_iff_toNat_lt] at hi
    rw [commonPlaces]
    omega
  rw [test_overwritten ha hsrc, decide_eq_true hi, Bool.and_true]
  simp only [hcommon]

/--
**An update gives a copy of the source just if the destination has no flag set behind the words of
the source.**
-/
theorem overwritten_eq_resized_iff {a src : Bitmap} (ha : a.WellFormed) (hsrc : src.WellFormed) :
    a.overwritten src = src.resized a.size ↔
      ∀ i : UInt64, 64 * ((src.size.toNat + 63) / 64) ≤ i.toNat → a.test i = false := by
  rw [eq_iff_test (overwritten_wellFormed ha.size_words src) (resized_wellFormed src a.size)]
  constructor
  · rintro ⟨-, hflags⟩ i hbehind
    by_cases hi : i < a.size
    · have hflag := hflags i
      -- here the update keeps the flag, and the copy has none
      rwa [test_overwritten_of_lt ha hsrc hi, if_neg (by omega), test_resized hsrc,
        test_of_places_le hbehind, Bool.false_and] at hflag
    · rw [UInt64.lt_iff_toNat_lt] at hi
      exact test_of_le (by omega)
  · intro hclear
    refine ⟨by rw [size_overwritten, size_resized], fun i => ?_⟩
    rw [test_resized hsrc]
    by_cases hi : i < a.size
    · rw [test_overwritten_of_lt ha hsrc hi, decide_eq_true hi, Bool.and_true]
      split
      · rfl
      · next hbehind =>
        rw [hclear i (by omega), test_of_places_le (by omega)]
    · have hle : (a.overwritten src).size.toNat ≤ i.toNat := by
        rw [UInt64.lt_iff_toNat_lt] at hi
        rw [size_overwritten]
        omega
      rw [test_of_le hle, decide_eq_false hi, Bool.and_false]

/-- With as many words on both sides nothing of the destination is kept. -/
theorem overwritten_eq_resized {a src : Bitmap} (ha : a.WellFormed) (hsrc : src.WellFormed)
    (hwords : a.words.size = src.words.size) : a.overwritten src = src.resized a.size := by
  rw [ha.size_words, hsrc.size_words, Word.toNat_countFor, Word.toNat_countFor] at hwords
  refine (overwritten_eq_resized_iff ha hsrc).mpr fun i hi => ?_
  rw [← hwords] at hi
  exact test_of_places_le hi

/-- Nor is there anything to keep in a bitmap without a flag set. -/
theorem zeroed_overwritten {src : Bitmap} (hsrc : src.WellFormed) (bits : UInt64) :
    (zeroed bits).overwritten src = src.resized bits := by
  have hwf : (zeroed bits).WellFormed := zeroed_wellFormed bits
  refine (overwritten_eq_resized_iff hwf hsrc).mpr fun i _ => ?_
  rw [hwf.test_eq_bit, bit_zeroed]

/-- An update without an event is one between bitmaps with as many words. -/
theorem events_update_eq_nil_iff (a src : Bitmap) :
    (a.update src).events = [] ↔ a.words.size = src.words.size := by
  simp [update]

/-! ## A copy of a copy -/

/-- **A copy of a copy is a copy just if the first one has all flags that the second one needs.** -/
theorem resized_resized_eq_iff {a : Bitmap} (ha : a.WellFormed) (m n : UInt64) :
    (a.resized m).resized n = a.resized n ↔ ∀ i, a.test i = true → i < n → i < m := by
  have hwf : (a.resized m).WellFormed := resized_wellFormed a m
  rw [eq_iff_test (resized_wellFormed (a.resized m) n) (resized_wellFormed a n)]
  simp only [size_resized, true_and, test_resized hwf, test_resized ha]
  refine forall_congr' fun i => ?_
  cases a.test i with
  | false => simp
  | true => by_cases hn : i < n <;> simp [hn]

end Bitmap

namespace Session

/--
**An update against a copy.**

A bitmap of a reachable session, with one flag at least, is updated from another one, of which then
a copy of the same size is made. The two are equal just if the bitmap had no flag set, before the
update, behind the words of its source. So they are equal after an update that leaves no event,
whatever there was before. And a bitmap that has just been created is made a copy of its source by
an update.
-/
theorem update_agrees {w : Session} (hw : Reachable w) {s src : String} (hne : s ≠ src)
    {a b : Bitmap} (ha : w.slot s = some a) (hb : w.slot src = some b) (hsize : 0 < a.size)
    (dest : String) :
    (∃ c d : Bitmap,
      w.step (.update s src) = (⟨.ok .nothing, (a.update b).events⟩, w.put s (some c)) ∧
      ((w.put s (some c)).step (.copyBits src a.size dest)).2 =
        (w.put s (some c)).put dest (some d) ∧
      (c = d ↔ ∀ i : UInt64, 64 * ((b.size.toNat + 63) / 64) ≤ i.toNat → a.test i = false) ∧
      ((a.update b).events = [] → c = d)) ∧
    (∀ n : UInt64, 0 < n → ∃ d : Bitmap,
      ((w.step (.create s n)).2.step (.update s src)).2 = w.put s (some d) ∧
      (w.step (.copyBits src n dest)).2 = w.put dest (some d)) := by
  have hwfa : a.WellFormed := hw.wellFormed s a ha
  have hwfb : b.WellFormed := hw.wellFormed src b hb
  have hsource : ∀ content, (w.put s content).slot src = some b := fun content => by
    rw [slot_put_of_ne w content (Ne.symm hne), hb]
  refine ⟨⟨a.overwritten b, b.resized a.size, step_update hne ha hb, ?_,
    Bitmap.overwritten_eq_resized_iff hwfa hwfb, ?_⟩, ?_⟩
  · rw [step_copyBits (hsource _) (UInt64.ne_of_lt hsize).symm]
  · intro hevents
    exact Bitmap.overwritten_eq_resized hwfa hwfb
      ((Bitmap.events_update_eq_nil_iff a b).mp hevents)
  · intro n hn
    have hn0 : n ≠ 0 := (UInt64.ne_of_lt hn).symm
    have hcreate : (w.step (.create s n)).2 = w.put s (some (Bitmap.zeroed n)) := by
      simp only [step, store, Bitmap.create?, if_neg hn0]
    refine ⟨b.resized n, ?_, ?_⟩
    · rw [hcreate, step_update hne (slot_put_self w s _) (hsource _),
        Bitmap.zeroed_overwritten hwfb, put_put]
    · rw [step_copyBits hb hn0]

/--
A hundred and thirty flags, updated from seventy. Flag 129 is behind the two words of the source and
is kept, so the bitmap is no copy of it, unlike one that has just been created.
-/
theorem update_agrees_kept :
    ∃ w : Session, Reachable w ∧ "a" ≠ "b" ∧ ∃ a b c d e : Bitmap,
      w.slot "a" = some a ∧ w.slot "b" = some b ∧ 0 < a.size ∧
      (w.step (.update "a" "b")).2 = w.put "a" (some c) ∧
      ((w.put "a" (some c)).step (.copyBits "b" a.size "d")).2 =
        (w.put "a" (some c)).put "d" (some d) ∧
      c ≠ d ∧
      ((w.step (.create "a" 130)).2.step (.update "a" "b")).2 = w.put "a" (some e) := by
  have hreach := Reachable.start.run
    [.create "a" 130, .create "b" 70, .set "a" 129 true, .set "b" 3 true]
  have hne : "a" ≠ "b" := by decide
  obtain ⟨⟨c, d, hupdate, hcopy, hequal, -⟩, hfresh⟩ :=
    update_agrees hreach hne rfl rfl (by decide) "d"
  obtain ⟨e, hcreated, -⟩ := hfresh 130 (by decide)
  refine ⟨_, hreach, hne, _, _, c, d, e, rfl, rfl, by decide, congrArg Prod.snd hupdate, hcopy, ?_,
    hcreated⟩
  intro h
  exact absurd (hequal.mp h 129 (by decide)) (by decide)

/--
**A copy of a copy against a copy.**

A bitmap of a reachable session is copied to one size and the copy to a second one. The outcome is
that of copying at once to the second size, just if every flag that is set below the second size is
below the first one too. So nothing more is lost on the way through a size that is not below the
second, and a bitmap that is made to grow and then to shrink back is what it was.
-/
theorem copyBits_twice {w : Session} (hw : Reachable w) {s : String} {a : Bitmap}
    (ha : w.slot s = some a) {m n : UInt64} (hm : 0 < m) (hn : 0 < n) (via dest : String) :
    ∃ b c d : Bitmap,
      (w.step (.copyBits s m via)).2 = w.put via (some b) ∧
      ((w.put via (some b)).step (.copyBits via n dest)).2 =
        (w.put via (some b)).put dest (some c) ∧
      (w.step (.copyBits s n dest)).2 = w.put dest (some d) ∧
      (c = d ↔ ∀ i, a.test i = true → i < n → i < m) ∧
      (n ≤ m → c = d) ∧
      (n = a.size → a.size ≤ m → c = a) := by
  have hwf : a.WellFormed := hw.wellFormed s a ha
  have htwice := Bitmap.resized_resized_eq_iff hwf m n
  refine ⟨a.resized m, (a.resized m).resized n, a.resized n, ?_, ?_, ?_, htwice, ?_, ?_⟩
  · rw [step_copyBits ha (UInt64.ne_of_lt hm).symm]
  · rw [step_copyBits (slot_put_self w via _) (UInt64.ne_of_lt hn).symm]
  · rw [step_copyBits ha (UInt64.ne_of_lt hn).symm]
  · intro hnm
    exact htwice.mpr fun i _ hi => UInt64.lt_of_lt_of_le hi hnm
  · rintro rfl hle
    rw [htwice.mpr fun i _ hi => UInt64.lt_of_lt_of_le hi hle]
    exact Bitmap.resized_size hwf

/-- Seventy flags of which flag 64 is set: a hundred on the way keep it, and sixty do not. -/
theorem copyBits_twice_seventy :
    ∃ w : Session, Reachable w ∧ ∃ a : Bitmap, w.slot "a" = some a ∧
      0 < (60 : UInt64) ∧ 0 < (70 : UInt64) ∧ 0 < (100 : UInt64) ∧
      (∃ b c : Bitmap, (w.step (.copyBits "a" 100 "b")).2 = w.put "b" (some b) ∧
        ((w.put "b" (some b)).step (.copyBits "b" 70 "c")).2 =
          (w.put "b" (some b)).put "c" (some c) ∧ c = a) ∧
      (∃ b c d : Bitmap, (w.step (.copyBits "a" 60 "b")).2 = w.put "b" (some b) ∧
        ((w.put "b" (some b)).step (.copyBits "b" 70 "c")).2 =
          (w.put "b" (some b)).put "c" (some c) ∧
        (w.step (.copyBits "a" 70 "c")).2 = w.put "c" (some d) ∧ c ≠ d) := by
  have hreach := Reachable.start.run [.create "a" 70, .set "a" 64 true]
  have h60 : 0 < (60 : UInt64) := by decide
  have h70 : 0 < (70 : UInt64) := by decide
  have h100 : 0 < (100 : UInt64) := by decide
  obtain ⟨b, c, -, hgrown, hback, -, -, -, hrestored⟩ :=
    copyBits_twice hreach (s := "a") rfl h100 h70 "b" "c"
  obtain ⟨b', c', d, hcut, hagain, honce, hequal, -⟩ :=
    copyBits_twice hreach (s := "a") rfl h60 h70 "b" "c"
  refine ⟨_, hreach, _, rfl, h60, h70, h100, ⟨b, c, hgrown, hback, ?_⟩,
    ⟨b', c', d, hcut, hagain, honce, ?_⟩⟩
  · exact hrestored rfl (by decide)
  · intro h
    exact absurd (hequal.mp h 64 (by decide) (by decide)) (by decide)

end Session

end PackedBits
