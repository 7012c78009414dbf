import PackedBits.Proofs.Session.Reachable

/-!
# Counts, and whether none or all flags are set

Three questions are answered from whole words, each by a shortcut of its own: the ones of all words
are added up, all words are compared with zero, and all but the last are compared with the full
word, the last one under its mask. Here each shortcut is led back to the stored bits, and these to
the flags.

The count and the comparison with zero look at the padding as well, and agree with the flags because
it is zero. The mask makes the third one independent of the padding, so for it the right number of
words is enough.

## Main statements

* `popCount_eq_countP` — the ones of a word are its bits that are set
* `countTrue_eq_countP`, `isEmpty_iff`, `isFull_iff` — each answer by bits
* `aggregates_exact` — the answers of a session by flags
-/

namespace PackedBits

namespace Word

/-! ## Words -/

/-- The ones of a number are its bits that are set, up to any place behind which there is none. -/
theorem ones_eq_countP {m n : Nat} (h : ∀ j, m ≤ j → n.testBit j = false) :
    ones n = (List.range m).countP n.testBit := by
  induction m generalizing n with
  | zero =>
    obtain rfl : n = 0 := Nat.eq_of_testBit_eq fun j => by rw [h j (Nat.zero_le j), Nat.zero_testBit]
    rw [ones]
    rfl
  | succ m ih =>
    have hhigher : n.testBit ∘ Nat.succ = (n / 2).testBit := by
      funext j
      exact Nat.testBit_add_one n j
    have hhalf : ∀ j, m ≤ j → (n / 2).testBit j = false := by
      intro j hj
      rw [← Nat.testBit_add_one]
      exact h (j + 1) (Nat.succ_le_succ hj)
    have hlowest : (if n.testBit 0 = true then 1 else 0) = n % 2 := by
      simp only [Nat.testBit_zero, decide_eq_true_eq]
      split <;> omega
    have hones : ones n = n % 2 + ones (n / 2) := by
      rw [ones]
      split
      · next h0 => rw [h0, ones]; rfl
      · rfl
    rw [hones, ih hhalf, List.range_succ_eq_map, List.countP_cons, List.countP_map, hhigher,
      hlowest, Nat.add_comm]

theorem popCount_eq_countP (w : Word) : popCount w = (List.range 64).countP w.toNat.testBit :=
  ones_eq_countP fun _ => testBit_of_le w

theorem eq_max_iff (w : Word) : w = max ↔ ∀ j, j < 64 → w.toNat.testBit j = true := by
  constructor
  · rintro rfl j hj
    rw [testBit_max, decide_eq_true hj]
  · intro h
    refine ext_testBit fun j => ?_
    rw [testBit_max]
    by_cases hj : j < 64
    · rw [h j hj, decide_eq_true hj]
    · rw [testBit_of_le w (by omega), decide_eq_false hj]

/-- A mask is kept whole by the words that have all of its bits. -/
theorem and_eq_right_iff (w mask : Word) :
    w &&& mask = mask ↔ ∀ j, mask.toNat.testBit j = true → w.toNat.testBit j = true := by
  constructor
  · intro h j hj
    rw [← h, UInt64.toNat_and, Nat.testBit_and, Bool.and_eq_true] at hj
    exact hj.1
  · intro h
    refine ext_testBit fun j => ?_
    rw [UInt64.toNat_and, Nat.testBit_and]
    cases hj : mask.toNat.testBit j with
    | false => rw [Bool.and_false]
    | true => rw [h j hj, Bool.and_true]

end Word

namespace Bitmap

/-! ## Bits -/

/-- The ones of some words are counted bit by bit. -/
theorem foldr_popCount (ws : List Word) :
    ws.foldr (fun w n => Word.popCount w + n) 0 =
      (List.range (64 * ws.length)).countP fun p =>
        (ws.getD (p / 64) 0).toNat.testBit (p % 64) := by
  induction ws with
  | nil => rfl
  | cons w ws ih =>
    have hfirst : ((List.range 64).countP fun p =>
        ((w :: ws).getD (p / 64) 0).toNat.testBit (p % 64)) = Word.popCount w := by
      rw [Word.popCount_eq_countP]
      refine List.countP_congr fun p hp => ?_
      rw [List.mem_range] at hp
      rw [show p / 64 = 0 by omega, show p % 64 = p by omega, List.getD_cons_zero]
    have hrest : (((List.range (64 * ws.length)).map (64 + ·)).countP fun p =>
        ((w :: ws).getD (p / 64) 0).toNat.testBit (p % 64)) =
          ws.foldr (fun w n => Word.popCount w + n) 0 := by
      rw [ih, List.countP_map]
      refine List.countP_congr fun p _ => ?_
      rw [Function.comp_apply, show (64 + p) / 64 = p / 64 + 1 by omega,
        show (64 + p) % 64 = p % 64 by omega, List.getD_cons_succ]
    rw [List.foldr_cons, List.length_cons, Nat.mul_succ, Nat.add_comm (64 * ws.length),
      List.range_add, List.countP_append, hfirst, hrest]

/-- The count of a bitmap is that of its stored bits, wherever they are. -/
theorem countTrue_eq_countP_places (a : Bitmap) :
    a.countTrue = (List.range (64 * a.words.size)).countP a.bit := by
  rw [countTrue, foldr_popCount, Array.length_toList]
  refine List.countP_congr fun p _ => ?_
  rw [bit, List.getD_eq_getElem?_getD, Array.getElem?_toList, Array.getD_eq_getD_getElem?]

/-- Without padding, the count is that of the bits that keep flags. -/
theorem countTrue_eq_countP {a : Bitmap} (ha : a.WellFormed) :
    a.countTrue = (List.range a.size.toNat).countP a.bit := by
  obtain ⟨rest, hrest⟩ := Nat.exists_eq_add_of_le (size_le_places ha.size_words)
  have hpadding : ((List.range rest).map (a.size.toNat + ·)).countP a.bit = 0 := by
    rw [List.countP_map, List.countP_eq_zero]
    intro p _
    rw [Function.comp_apply, ha.bit_of_le _ (Nat.le_add_right _ p)]
    exact Bool.false_ne_true
  rw [countTrue_eq_countP_places, hrest, List.range_add, List.countP_append, hpadding, Nat.add_zero]

/-- All words are zero just if no bit is set. -/
theorem isEmpty_iff (a : Bitmap) : a.isEmpty = true ↔ ∀ p, a.bit p = false := by
  simp only [isEmpty, Array.all_eq_true, beq_iff_eq, Word.eq_zero_iff]
  constructor
  · intro h p
    by_cases hp : p / 64 < a.words.size
    · rw [bit_eq_testBit hp, h _ hp]
    · exact bit_of_words_le (by omega)
  · intro h k hk j
    by_cases hj : j < 64
    · rw [← bit_of_word hk hj, h]
    · exact Word.testBit_of_le _ (by omega)

/-- The words in front of the last one are full just if every bit in them is set. -/
theorem all_pop_iff (a : Bitmap) :
    a.words.pop.all (· == Word.max) = true ↔
      ∀ p, p / 64 < a.words.size - 1 → a.bit p = true := by
  rw [Array.all_eq_true]
  simp only [beq_iff_eq, Word.eq_max_iff, Array.size_pop, Array.getElem_pop]
  constructor
  · intro h p hp
    rw [bit_eq_testBit (by omega), h _ hp _ (by omega)]
  · intro h k hk j hj
    rw [← bit_of_word (by omega) hj, h _ (by omega)]

/-- The last word is full under its mask just if every bit in it is set that keeps a flag. -/
theorem last_and_lastMask_iff {a : Bitmap} (ha : a.words.size = (Word.countFor a.size).toNat)
    (hlast : a.words.size - 1 < a.words.size) :
    a.words[a.words.size - 1] &&& a.lastMask = a.lastMask ↔
      ∀ p, p / 64 = a.words.size - 1 → p < a.size.toNat → a.bit p = true := by
  rw [Word.and_eq_right_iff]
  constructor
  · intro h p hp hlt
    have hmask := lastMask_covers ha hp (by omega)
    rw [decide_eq_true hlt] at hmask
    simp only [bit_eq_testBit (show p / 64 < a.words.size by omega), hp, h _ hmask]
  · intro h j hj
    have hj64 : j < 64 := by
      by_cases hj64 : j < 64
      · exact hj64
      · rw [Word.testBit_of_le _ (by omega)] at hj
        cases hj
    have hmask := lastMask_covers (p := 64 * (a.words.size - 1) + j) ha (by omega) (by omega)
    rw [show (64 * (a.words.size - 1) + j) % 64 = j by omega, hj] at hmask
    rw [← bit_of_word hlast hj64, h _ (by omega) (of_decide_eq_true hmask.symm)]

/-- With the right number of words, all of them are full just if every flag is set. -/
theorem isFull_iff {a : Bitmap} (ha : a.words.size = (Word.countFor a.size).toNat) :
    a.isFull = true ↔ ∀ p, p < a.size.toNat → a.bit p = true := by
  have hwords := ha
  rw [Word.toNat_countFor] at hwords
  rw [isFull, Array.back?_eq_getElem?]
  by_cases hpos : 0 < a.words.size
  · have hlast : a.words.size - 1 < a.words.size := by omega
    rw [Array.getElem?_eq_getElem hlast]
    simp only [Bool.and_eq_true, beq_iff_eq, all_pop_iff, last_and_lastMask_iff ha hlast]
    constructor
    · rintro ⟨hfront, hback⟩ p hp
      by_cases hword : p / 64 < a.words.size - 1
      · exact hfront p hword
      · exact hback p (by omega) hp
    · intro h
      exact ⟨fun p hp => h p (by omega), fun p _ hp => h p hp⟩
  -- without words there is no flag that could be clear
  · rw [Array.getElem?_eq_none (by omega)]
    refine iff_of_true rfl fun p hp => ?_
    omega

/-! ## Flags -/

/-- What holds of the bits that keep flags holds of the flags. -/
theorem forall_bit_iff_forall_test (a : Bitmap) (v : Bool) :
    (∀ p, p < a.size.toNat → a.bit p = v) ↔ ∀ i, i < a.size → a.test i = v := by
  constructor
  · intro h i hi
    rw [UInt64.lt_iff_toNat_lt] at hi
    rw [test_eq_bit hi, h _ hi]
  · intro h p hp
    have hindex : (UInt64.ofNat p).toNat = p := Word.toNat_ofNat_of_lt hp
    have htest := h (UInt64.ofNat p) (by rw [UInt64.lt_iff_toNat_lt, hindex]; exact hp)
    rwa [test_eq_bit (by rw [hindex]; exact hp), hindex] at htest

/-- The count is that of the flags that are set. -/
theorem countTrue_eq_countP_test {a : Bitmap} (ha : a.WellFormed) :
    a.countTrue = (List.range a.size.toNat).countP fun i => a.test (UInt64.ofNat i) := by
  rw [countTrue_eq_countP ha]
  refine List.countP_congr fun p hp => ?_
  have hindex : (UInt64.ofNat p).toNat = p := Word.toNat_ofNat_of_lt (List.mem_range.mp hp)
  rw [ha.test_eq_bit, hindex]

theorem countTrue_le {a : Bitmap} (ha : a.WellFormed) : a.countTrue ≤ a.size.toNat := by
  rw [countTrue_eq_countP ha]
  exact Nat.le_trans List.countP_le_length (Nat.le_of_eq List.length_range)

/-- The count is zero just if no flag is set. -/
theorem countTrue_eq_zero_iff {a : Bitmap} (ha : a.WellFormed) :
    a.countTrue = 0 ↔ ∀ i, i < a.size → a.test i = false := by
  rw [countTrue_eq_countP ha, List.countP_eq_zero, ← forall_bit_iff_forall_test]
  simp only [List.mem_range, Bool.not_eq_true]

/-- The count is the number of flags just if all of them are set. -/
theorem countTrue_eq_size_iff {a : Bitmap} (ha : a.WellFormed) :
    a.countTrue = a.size.toNat ↔ ∀ i, i < a.size → a.test i = true := by
  have hlength : a.size.toNat = (List.range a.size.toNat).length := List.length_range.symm
  rw [countTrue_eq_countP ha, ← forall_bit_iff_forall_test]
  conv => lhs; rhs; rw [hlength]
  rw [List.countP_eq_length]
  simp only [List.mem_range]

theorem isEmpty_iff_test {a : Bitmap} (ha : a.WellFormed) :
    a.isEmpty = true ↔ ∀ i, i < a.size → a.test i = false := by
  rw [isEmpty_iff, ← forall_bit_iff_forall_test]
  constructor
  · intro h p _
    exact h p
  · intro h p
    by_cases hp : p < a.size.toNat
    · exact h p hp
    · exact ha.bit_of_le p (by omega)

theorem isFull_iff_test {a : Bitmap} (ha : a.words.size = (Word.countFor a.size).toNat) :
    a.isFull = true ↔ ∀ i, i < a.size → a.test i = true := by
  rw [isFull_iff ha, forall_bit_iff_forall_test]

end Bitmap

namespace Session

/--
**Counting, and asking whether none or all flags are set, agree with the flags.**

A session that is asked about a bitmap, with any number of flags or none, replies with the number of
indices in range whose flag is set. It never exceeds the number of flags. The bitmap is said to be
empty just if that number is zero, so just if no flag is set, and to be full just if it is the
number of flags, so just if each of them is set. It can be said to be both, but only without a flag.
-/
theorem aggregates_exact {w : Session} (hw : Reachable w) {s : String} {a : Bitmap}
    (ha : w.slot s = some a) :
    w.step (.countTrue s) = (.plain (.count a.countTrue), w) ∧
    w.step (.isEmpty s) = (.plain (.flag a.isEmpty), w) ∧
    w.step (.isFull s) = (.plain (.flag a.isFull), w) ∧
    a.countTrue = ((List.range a.size.toNat).countP fun i => a.test (UInt64.ofNat i)) ∧
    a.countTrue ≤ a.size.toNat ∧
    (a.isEmpty = true ↔ a.countTrue = 0) ∧
    (a.isEmpty = true ↔ ∀ i, i < a.size → a.test i = false) ∧
    (a.isFull = true ↔ a.countTrue = a.size.toNat) ∧
    (a.isFull = true ↔ ∀ i, i < a.size → a.test i = true) ∧
    (a.isEmpty = true ∧ a.isFull = true ↔ a.size = 0) := by
  have hwf : a.WellFormed := hw.wellFormed s a ha
  have hle : a.countTrue ≤ a.size.toNat := Bitmap.countTrue_le hwf
  have hempty : a.isEmpty = true ↔ a.countTrue = 0 := by
    rw [Bitmap.isEmpty_iff_test hwf, Bitmap.countTrue_eq_zero_iff hwf]
  have hfull : a.isFull = true ↔ a.countTrue = a.size.toNat := by
    rw [Bitmap.isFull_iff_test hwf.size_words, Bitmap.countTrue_eq_size_iff hwf]
  refine ⟨?_, ?_, ?_, Bitmap.countTrue_eq_countP_test hwf, hle, hempty,
    Bitmap.isEmpty_iff_test hwf, hfull, Bitmap.isFull_iff_test hwf.size_words, ?_⟩
  · simp only [step, askPresent, ask, ha, Option.elim_some]
  · simp only [step, ask, ha, Slot.isEmpty, Option.elim_some]
  · simp only [step, ask, ha, Slot.isFull, Option.elim_some]
  · rw [hempty, hfull, ← UInt64.toNat_inj, UInt64.toNat_zero]
    omega

/-- Seventy flags in a full word and one that has room for more, and a bitmap without flags. -/
theorem aggregates_exact_full :
    (∃ w : Session, Reachable w ∧ ∃ (s : String) (a : Bitmap),
      w.slot s = some a ∧ a = ⟨70, #[Word.max, 0x3F]⟩ ∧
      w.step (.isFull s) = (.plain (.flag true), w) ∧
      w.step (.countTrue s) = (.plain (.count 70), w) ∧ a.test 69 = true) ∧
    (∃ w : Session, Reachable w ∧ w.slot "e" = some Bitmap.empty ∧
      Bitmap.empty.isEmpty = true ∧ Bitmap.empty.isFull = true) := by
  constructor
  · have hsize : (#[Word.max, 0x3F] : Array Word).size = (Word.countFor 70).toNat := by decide
    have hwf : (⟨70, #[Word.max, 0x3F]⟩ : Bitmap).WellFormed :=
      ⟨hsize, (Bitmap.hasPadding_eq_false_iff hsize).mp (by decide)⟩
    obtain ⟨w, s, hreach, ha⟩ := (exists_reachable_iff _).mpr hwf
    obtain ⟨hcount, -, hfull, -, -, -, -, hall, hflags, -⟩ := aggregates_exact hreach ha
    have htrue : (⟨70, #[Word.max, 0x3F]⟩ : Bitmap).isFull = true := by cbv
    rw [htrue] at hfull
    rw [hall.mp htrue] at hcount
    exact ⟨w, hreach, s, _, ha, rfl, hfull, hcount, hflags.mp htrue 69 (by decide)⟩
  · have hreach := Reachable.start.step (.createEmpty "e")
    obtain ⟨-, -, -, -, -, -, -, -, -, hboth⟩ := aggregates_exact hreach (s := "e") rfl
    obtain ⟨hempty, hfull⟩ := hboth.mpr rfl
    exact ⟨_, hreach, rfl, hempty, hfull⟩

end Session

end PackedBits
