import PackedBits.Proofs.Picks.Uniform
import PackedBits.Proofs.Queries.Scan

/-!
# Picks from a known source of draws

Draws are rejected until one is kept, and nothing in the rule says that this ever happens: a source
that goes on with a draw that is rejected is searched without end. What ends the search is that the
draws of a list are followed by zeros, because zero is kept whatever is chosen from.

So the search is described on a source without end (`Draw.EndsAt`): it ends at the first draw that
is kept. A list of draws is such a source (`Draw.source`), and following the list to its end comes
to the same (`Draw.choose_eq`). The description tells at once which draws had a say in the outcome,
namely those up to the one that is kept.

## Main statements

* `Draw.exists_endsAt` — the search ends behind the list at the latest
* `Draw.choose_eq` — where it ends it chooses
* `Draw.choose_congr` — draws that are not used have no say
* `pick_scripted` — the picks of a session
-/

namespace PackedBits

namespace Draw

/-! ## Sources -/

/-- The draws of a list, and zeros behind them. -/
def source (draws : List UInt32) (n : Nat) : UInt32 := draws.getD n 0

/-- The draws of a source from the second one on. -/
def later (draw : Nat → UInt32) (n : Nat) : UInt32 := draw (n + 1)

/-! ## Searches -/

/-- The search for a draw over `k` things ends at draw `n`: that is kept, and none before it is. -/
structure EndsAt (k : Nat) (draw : Nat → UInt32) (n : Nat) : Prop where
  kept : accepts k (draw n) = true
  rejected : ∀ m, m < n → accepts k (draw m) = false

variable {k : Nat} {draw : Nat → UInt32}

/-- A search ends at the first draw if that is kept. -/
theorem EndsAt.zero (h : accepts k (draw 0) = true) : EndsAt k draw 0 := by
  refine ⟨h, fun m hm => ?_⟩
  omega

/-- Otherwise it goes on with the draws that follow. -/
theorem EndsAt.succ (h : accepts k (draw 0) = false) {n : Nat} (hlater : EndsAt k (later draw) n) :
    EndsAt k draw (n + 1) := by
  refine ⟨hlater.kept, fun m hm => ?_⟩
  cases m with
  | zero => exact h
  | succ m => exact hlater.rejected m (by omega)

/-- A search ends only once. -/
theorem EndsAt.unique {n m : Nat} (hn : EndsAt k draw n) (hm : EndsAt k draw m) : n = m := by
  have hle : ∀ {i j : Nat}, EndsAt k draw i → EndsAt k draw j → i ≤ j := by
    intro i j hi hj
    by_cases h : j < i
    · exact absurd hj.kept (by rw [hi.rejected j h]; exact Bool.false_ne_true)
    · omega
  exact Nat.le_antisymm (hle hn hm) (hle hm hn)

/-- Another source with the same draws up to there ends the search at the same draw. -/
theorem EndsAt.congr {n : Nat} (h : EndsAt k draw n) {other : Nat → UInt32}
    (hsame : ∀ m, m ≤ n → other m = draw m) : EndsAt k other n := by
  refine ⟨?_, fun m hm => ?_⟩
  · rw [hsame n (Nat.le_refl n), h.kept]
  · rw [hsame m (Nat.le_of_lt hm), h.rejected m hm]

/-- A source in which every draw is rejected is searched without end. -/
example : ∀ n, ¬ EndsAt 3 (fun _ => 0x55555555) n := by
  intro n h
  exact absurd h.kept (by decide)

/-! ## Lists -/

/-- **With zeros behind the list, the search ends.** -/
theorem exists_endsAt (k : Nat) (draws : List UInt32) :
    ∃ n, n ≤ draws.length ∧ EndsAt k (source draws) n := by
  induction draws with
  | nil => exact ⟨0, Nat.le_refl 0, .zero (accepts_zero k)⟩
  | cons v rest ih =>
    cases hv : accepts k v with
    | true => exact ⟨0, Nat.zero_le _, .zero hv⟩
    | false =>
      obtain ⟨n, hn, hend⟩ := ih
      exact ⟨n + 1, Nat.succ_le_succ hn, .succ hv hend⟩

/-- Following the list leads to where the search ends. -/
theorem choose_eq {draws : List UInt32} {n : Nat} (h : EndsAt k (source draws) n) :
    choose k draws = (choice k (source draws n), n + 1) := by
  induction draws generalizing n with
  | nil =>
    obtain rfl : n = 0 := h.unique (.zero (accepts_zero k))
    rfl
  | cons v rest ih =>
    rw [choose_cons]
    cases hv : accepts k v with
    | true =>
      obtain rfl : n = 0 := h.unique (.zero hv)
      rfl
    | false =>
      obtain ⟨m, -, hm⟩ := exists_endsAt k rest
      obtain rfl : n = m + 1 := h.unique (.succ hv hm)
      rw [ih hm]
      rfl

/-- Lists that agree on the draws that are used lead to the same choice. -/
theorem choose_congr {draws others : List UInt32}
    (h : ∀ n, n < (choose k draws).2 → source others n = source draws n) :
    choose k others = choose k draws := by
  obtain ⟨n, -, hend⟩ := exists_endsAt k draws
  rw [choose_eq hend] at h
  rw [choose_eq hend, choose_eq (hend.congr fun m hm => h m (Nat.lt_succ_of_le hm)),
    h n (Nat.lt_succ_self n)]

end Draw

/-! ## Picks -/

namespace Bitmap

/-- Nothing is picked, and nothing drawn for it, just where no flag is set. -/
theorem pick_eq_nothing_iff (a : Bitmap) (draws : List UInt32) :
    a.pick draws = ⟨none, 0⟩ ↔ a.trueIndices = [] := by
  constructor
  · intro hpick
    by_cases h : a.trueIndices = []
    · exact h
    · rw [pick_eq h, Pick.mk.injEq] at hpick
      exact absurd hpick.2 (Nat.pos_iff_ne_zero.mp (Draw.choose_used_pos _ _))
  · intro h
    rw [pick, h]
    rfl

/-- A pick is the choice of the first draw that is kept. -/
theorem pick_of_endsAt {a : Bitmap} (h : a.trueIndices ≠ []) {draws : List UInt32} {n : Nat}
    (hend : Draw.EndsAt a.trueIndices.length (Draw.source draws) n) :
    a.pick draws =
      ⟨a.trueIndices[Draw.choice a.trueIndices.length (Draw.source draws n)]?, n + 1⟩ := by
  rw [pick_eq h, Draw.choose_eq hend]

/-- Lists that agree on the draws that are used lead to the same pick. -/
theorem pick_congr (a : Bitmap) {draws others : List UInt32}
    (h : ∀ n, n < (a.pick draws).used → Draw.source others n = Draw.source draws n) :
    a.pick others = a.pick draws := by
  by_cases hnil : a.trueIndices = []
  · rw [(a.pick_eq_nothing_iff others).mpr hnil, (a.pick_eq_nothing_iff draws).mpr hnil]
  · rw [pick_eq hnil] at h
    rw [pick_eq hnil, pick_eq hnil, Draw.choose_congr h]

end Bitmap

namespace Session

/--
**A pick ends, finds a flag that is set, and goes by nothing but the flags and the draws it uses.**

A bitmap of a reachable session has `k` flags set, fewer than there are draws, and a list of draws
is followed by zeros. If no flag is set then nothing is picked and nothing drawn. Otherwise there is
a first draw whose product with `k` has a lower half below `k` with its leading zeros put behind it,
at the latest the one behind the list, and the upper half is the place of the pick among the set
indices. It is in range and its flag is set. Any other list with the same draws up to there gives the
same pick from the same number of draws. So does any other bitmap with the same set indices, that is
with the same flags set, whatever its size and however it came about.
-/
theorem pick_scripted {w : Session} (hw : Reachable w) {s : String} {a : Bitmap}
    (ha : w.slot s = some a) {k : Nat}
    (hk : (Finset.univ.filter fun i : UInt64 => a.test i = true).card = k) (hlt : k < 2 ^ 32)
    (draws : List UInt32) :
    w.step (.pick s draws) = (.plain (.pick (a.pick draws)), w) ∧
    (a.pick draws = ⟨none, 0⟩ ↔ ∀ i, a.test i = false) ∧
    ((∃ i, a.test i = true) → ∃ (n : Nat) (i : UInt64),
      a.pick draws = ⟨some i, n + 1⟩ ∧ n ≤ draws.length ∧
      (∀ m, m < n →
        (k <<< Draw.leadingZeros k) - 1 < (Draw.source draws m).toNat * k % 2 ^ 32) ∧
      (Draw.source draws n).toNat * k % 2 ^ 32 ≤ (k <<< Draw.leadingZeros k) - 1 ∧
      a.trueIndices[(Draw.source draws n).toNat * k / 2 ^ 32]? = some i ∧
      i < a.size ∧ a.test i = true) ∧
    (∀ others : List UInt32,
      (∀ m, m < (a.pick draws).used → Draw.source others m = Draw.source draws m) →
      a.pick others = a.pick draws) ∧
    (∀ (w' : Session) (s' : String) (b : Bitmap), Reachable w' → w'.slot s' = some b →
      (a.trueIndices = b.trueIndices ↔ ∀ i, a.test i = b.test i) ∧
      (a.trueIndices = b.trueIndices → a.pick draws = b.pick draws)) := by
  have hwf : a.WellFormed := hw.wellFormed s a ha
  have hset : ∀ i, i ∈ a.trueIndices ↔ a.test i = true := Bitmap.mem_trueIndices hwf.size_words
  obtain rfl : k = a.trueIndices.length := hk.symm.trans (Bitmap.card_test hwf.size_words)
  refine ⟨?_, ?_, ?_, fun others => a.pick_congr, ?_⟩
  · simp only [step, askPresent, ask, ha, Option.elim_some]
  · rw [Bitmap.pick_eq_nothing_iff, List.eq_nil_iff_forall_not_mem]
    simp only [hset, Bool.not_eq_true]
  · rintro ⟨j, hj⟩
    have hpos : 0 < a.trueIndices.length := List.length_pos_of_mem ((hset j).mpr hj)
    obtain ⟨n, hn, hend⟩ := Draw.exists_endsAt a.trueIndices.length draws
    have hchoice := Draw.choice_lt hpos (Draw.source draws n)
    have hpick := Bitmap.pick_of_endsAt (List.ne_nil_of_length_pos hpos) hend
    have htest := (hset _).mp (List.getElem_mem hchoice)
    rw [List.getElem?_eq_getElem hchoice] at hpick
    refine ⟨n, _, hpick, hn, ?_, (Draw.accepts_iff_le hpos hlt _).mp hend.kept,
      List.getElem?_eq_getElem hchoice, Bitmap.lt_size_of_test htest, htest⟩
    intro m hm
    rw [← Nat.not_le, ← Draw.accepts_iff_le hpos hlt, hend.rejected m hm]
    exact Bool.false_ne_true
  · intro w' s' b hw' hb
    refine ⟨Bitmap.trueIndices_eq_iff hwf (hw'.wellFormed s' b hb), fun h => ?_⟩
    rw [Bitmap.pick, Bitmap.pick, h]

/--
Three of seventy flags. The first draw is rejected and the second one kept, and a third one has no
say. A copy with more flags has the same pick.
-/
theorem pick_scripted_three :
    ∃ w : Session, Reachable w ∧ ∃ a b : Bitmap, w.slot "s" = some a ∧ w.slot "t" = some b ∧
      (Finset.univ.filter fun i : UInt64 => a.test i = true).card = 3 ∧ 3 < 2 ^ 32 ∧
      a.pick [0x55555555, 0x80000000] = ⟨some 64, 2⟩ ∧
      a.pick [0x55555555, 0x80000000, 7] = ⟨some 64, 2⟩ ∧
      b.pick [0x55555555, 0x80000000] = ⟨some 64, 2⟩ := by
  have hreach := Reachable.start.run
    [.create "s" 70, .set "s" 3 true, .set "s" 64 true, .set "s" 69 true, .copyBits "s" 100 "t"]
  have hwords := (hreach.wellFormed "s" _ rfl).size_words
  have hthree := (Bitmap.card_test hwords).trans (show _ = 3 by decide)
  obtain ⟨-, -, hset, hothers, hcopy⟩ :=
    pick_scripted hreach (s := "s") rfl hthree (by decide) [0x55555555, 0x80000000]
  obtain ⟨n, i, hpick, -, hrejected, hkept, hplace, -, -⟩ := hset ⟨64, by decide⟩
  obtain rfl : n = 1 := by
    rcases n with _ | _ | n
    · exact absurd hkept (by decide)
    · rfl
    · exact absurd (hrejected 1 (by omega)) (by decide)
  obtain rfl : i = 64 := by
    refine Option.some.inj (hplace.symm.trans ?_)
    decide
  refine ⟨_, hreach, _, _, rfl, rfl, hthree, by decide, hpick, ?_, ?_⟩
  · rw [hothers, hpick]
    rw [hpick]
    decide
  · rw [← (hcopy _ "t" _ hreach rfl).2 (by decide), hpick]

end Session

end PackedBits
