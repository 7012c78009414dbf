import Mathlib.Algebra.BigOperators.Group.Finset.Basic
import Mathlib.Algebra.Order.Floor.Div
import Mathlib.Data.FinEnum
import Mathlib.Order.Interval.Finset.Nat
import PackedBits.Bitmap.Pick
import PackedBits.Proofs.Bits.Indices
import PackedBits.Proofs.Session.Reachable

/-!
# Picks have equal chances

A draw is spread over `k` things by multiplying it by `k`. The products are the multiples of `k`,
and those that choose thing `c` and are kept lie in a window: they begin at `c` times the number of
draws and end after as many numbers as the limit allows. That length is a multiple of `k`, namely
`k` with zeros behind it, so wherever the window begins there are equally many multiples in it. They
belong to draws that follow one another (`kept_iff`), which are counted by the ends of their
interval. Since the length is the greatest one of that form, at least half of the draws are kept.

What is left is to see that the set indices are met as such: each of them stands at one place of the
list that the choice is made from, and nothing else stands there.

## Main statements

* `Draw.kept_iff` — the draws that are kept for one choice
* `Draw.count_kept`, `Draw.count_accepts` — their number for one choice, and for all
* `Bitmap.card_test` — the list has as many elements as there are flags set
* `Bitmap.exists_pick_iff`, `Bitmap.mem_eligible_iff` — what may come up in a pick, and in several
* `pick_uniform` — the same for the picks of a session
-/

namespace PackedBits

namespace Draw

/-! ## Counting -/

/-- Number of draws with a property, out of all that there are. -/
def count (P : UInt32 → Prop) [DecidablePred P] : Nat := (Finset.univ.filter P).card

theorem count_congr {P Q : UInt32 → Prop} [DecidablePred P] [DecidablePred Q]
    (h : ∀ v, P v ↔ Q v) : count P = count Q :=
  congrArg Finset.card (Finset.filter_congr fun v _ => h v)

/-- Draws are counted by their numbers. -/
theorem count_interval {P : UInt32 → Prop} [DecidablePred P] {lo hi : Nat}
    (hhi : hi ≤ 2 ^ 32) (h : ∀ v, P v ↔ lo ≤ v.toNat ∧ v.toNat < hi) : count P = hi - lo := by
  have himage : (Finset.univ.filter P).image UInt32.toNat = Finset.Ico lo hi := by
    ext n
    simp only [Finset.mem_image, Finset.mem_filter, Finset.mem_univ, true_and, Finset.mem_Ico, h]
    constructor
    · rintro ⟨v, hv, rfl⟩
      exact hv
    · intro hn
      have hv : (UInt32.ofNat n).toNat = n :=
        UInt32.toNat_ofNat_of_lt' (Nat.lt_of_lt_of_le hn.2 hhi)
      exact ⟨UInt32.ofNat n, by rw [hv]; exact hn, hv⟩
  rw [count, ← Finset.card_image_of_injective _ fun _ _ => UInt32.toNat.inj, himage, Nat.card_Ico]

/-! ## Windows -/

/-- The multiples of `k` from a number on. -/
theorem le_mul_iff {k : Nat} (hk : 0 < k) (first v : Nat) : first ≤ v * k ↔ first ⌈/⌉ k ≤ v := by
  rw [ceilDiv_le_iff_le_mul hk, Nat.mul_comm]

theorem add_mul_ceilDiv {k : Nat} (hk : 0 < k) (first n : Nat) :
    (first + n * k) ⌈/⌉ k = first ⌈/⌉ k + n := by
  rw [Nat.ceilDiv_eq_add_pred_div, Nat.ceilDiv_eq_add_pred_div, ← Nat.add_mul_div_right _ _ hk]
  congr 1
  omega

/-- The multiples of `k` among `n * k` numbers in a row are `n` multiples in a row. -/
theorem window_iff {k : Nat} (hk : 0 < k) (first n v : Nat) :
    (first ≤ v * k ∧ v * k < first + n * k) ↔ (first ⌈/⌉ k ≤ v ∧ v < first ⌈/⌉ k + n) := by
  rw [le_mul_iff hk, ← Nat.not_le, le_mul_iff hk, add_mul_ceilDiv hk, Nat.not_le]

/-! ## The limit -/

/-- Number of zeros in front of `k`, written with 32 binary digits. -/
def leadingZeros (k : Nat) : Nat := (BitVec.ofNat 32 k).clz.toNat

section

variable {k : Nat} (hk : 0 < k) (hlt : k < 2 ^ 32)

include hk hlt

theorem leadingZeros_eq : leadingZeros k = 31 - k.log2 := by
  have hword : (BitVec.ofNat 32 k).toNat = k := Nat.mod_eq_of_lt hlt
  have hne : BitVec.ofNat 32 k ≠ 0#32 := by
    intro h
    rw [← BitVec.toNat_inj, hword] at h
    exact absurd h (Nat.pos_iff_ne_zero.mp hk)
  have hlower := BitVec.two_pow_sub_clz_le_toNat_of_ne_zero (by decide) hne
  have hupper := BitVec.toNat_lt_two_pow_sub_clz (x := BitVec.ofNat 32 k)
  have hclz : leadingZeros k < 32 := BitVec.lt_def.mp (BitVec.clz_lt_iff_ne_zero.mpr hne)
  rw [hword] at hlower hupper
  have hlog : k.log2 = 31 - leadingZeros k := by
    rw [Nat.log2_eq_iff (Nat.pos_iff_ne_zero.mp hk)]
    refine ⟨hlower, ?_⟩
    rw [show 31 - leadingZeros k + 1 = 32 - leadingZeros k by omega]
    exact hupper
  omega

/-- With zeros behind it instead of in front, `k` fills 32 digits. -/
theorem shifted_bounds : 2 ^ 31 ≤ k * 2 ^ leadingZeros k ∧ k * 2 ^ leadingZeros k ≤ 2 ^ 32 := by
  have hne : k ≠ 0 := Nat.pos_iff_ne_zero.mp hk
  have hlog : k.log2 ≤ 31 := Nat.le_of_lt_succ ((Nat.log2_lt hne).mpr hlt)
  rw [leadingZeros_eq hk hlt]
  constructor
  · calc 2 ^ 31 = 2 ^ k.log2 * 2 ^ (31 - k.log2) := by rw [← Nat.pow_add]; congr 1; omega
      _ ≤ k * 2 ^ (31 - k.log2) := Nat.mul_le_mul_right _ (Nat.log2_self_le hne)
  · calc k * 2 ^ (31 - k.log2)
      _ ≤ 2 ^ (k.log2 + 1) * 2 ^ (31 - k.log2) := Nat.mul_le_mul_right _ (Nat.le_of_lt Nat.lt_log2_self)
      _ = 2 ^ 32 := by rw [← Nat.pow_add]; congr 1; omega

/-- A draw is kept if its lower half is below `k` with its leading zeros put behind it. -/
theorem accepts_iff_le (v : UInt32) :
    accepts k v = true ↔ v.toNat * k % 2 ^ 32 ≤ (k <<< leadingZeros k) - 1 := by
  rw [accepts, decide_eq_true_eq, limit, ← leadingZeros_eq hk hlt]
  exact Iff.rfl

theorem accepts_iff_lt (v : UInt32) :
    accepts k v = true ↔ v.toNat * k % 2 ^ 32 < k * 2 ^ leadingZeros k := by
  have hpos : 0 < k * 2 ^ leadingZeros k := Nat.mul_pos hk (Nat.two_pow_pos _)
  rw [accepts_iff_le hk hlt, Nat.shiftLeft_eq]
  omega

/-! ## Shares -/

/-- The draws that are kept for one choice follow one another. -/
theorem kept_iff (c : Nat) (v : UInt32) :
    (accepts k v = true ∧ choice k v = c) ↔
      (c * 2 ^ 32) ⌈/⌉ k ≤ v.toNat ∧ v.toNat < (c * 2 ^ 32) ⌈/⌉ k + 2 ^ leadingZeros k := by
  have hbound := (shifted_bounds hk hlt).2
  rw [← window_iff hk, Nat.mul_comm (2 ^ leadingZeros k), accepts_iff_lt hk hlt, choice, UInt32.size]
  omega

/-- Each choice is made by equally many draws that are kept. -/
theorem count_kept {c : Nat} (hc : c < k) :
    count (fun v => accepts k v = true ∧ choice k v = c) = 2 ^ leadingZeros k := by
  -- the window ends before that of the next choice begins, and the last one before the draws end
  have hlast : (c * 2 ^ 32) ⌈/⌉ k + 2 ^ leadingZeros k ≤ 2 ^ 32 := by
    rw [← add_mul_ceilDiv hk, ← le_mul_iff hk, Nat.mul_comm _ k]
    calc c * 2 ^ 32 + k * 2 ^ leadingZeros k
      _ ≤ c * 2 ^ 32 + 2 ^ 32 := Nat.add_le_add_left (shifted_bounds hk hlt).2 _
      _ = (c + 1) * 2 ^ 32 := (Nat.succ_mul c _).symm
      _ ≤ k * 2 ^ 32 := Nat.mul_le_mul_right _ hc
      _ = 2 ^ 32 * k := Nat.mul_comm _ _
  rw [count_interval hlast (kept_iff hk hlt c), Nat.add_sub_cancel_left]

/-- So each choice is made by some draw that is kept. -/
theorem exists_kept {c : Nat} (hc : c < k) : ∃ v, accepts k v = true ∧ choice k v = c := by
  have hcount : 0 < count fun v => accepts k v = true ∧ choice k v = c := by
    rw [count_kept hk hlt hc]
    exact Nat.two_pow_pos _
  obtain ⟨v, hv⟩ := Finset.card_pos.mp hcount
  exact ⟨v, (Finset.mem_filter.mp hv).2⟩

/-- The draws that are kept, of all choices together. -/
theorem count_accepts : count (fun v => accepts k v = true) = k * 2 ^ leadingZeros k := by
  have hchoice : ∀ v ∈ Finset.univ.filter fun v : UInt32 => accepts k v = true,
      choice k v ∈ Finset.range k := fun v _ => Finset.mem_range.mpr (choice_lt hk v)
  have hshare : ∀ c ∈ Finset.range k,
      ((Finset.univ.filter fun v => accepts k v = true).filter fun v => choice k v = c).card =
        2 ^ leadingZeros k := by
    intro c hc
    rw [Finset.filter_filter]
    exact count_kept hk hlt (Finset.mem_range.mp hc)
  rw [count, Finset.card_eq_sum_card_fiberwise hchoice, Finset.sum_const_nat hshare,
    Finset.card_range]

end

end Draw

/-! ## Picks -/

namespace Bitmap

/-- The list of set indices has as many elements as there are flags set. -/
theorem card_test {a : Bitmap} (ha : a.words.size = (Word.countFor a.size).toNat) :
    (Finset.univ.filter fun i => a.test i = true).card = a.trueIndices.length := by
  have hset : (Finset.univ.filter fun i => a.test i = true) = a.trueIndices.toFinset := by
    ext i
    rw [Finset.mem_filter, List.mem_toFinset, mem_trueIndices ha]
    exact and_iff_right (Finset.mem_univ i)
  rw [hset, List.toFinset_card_of_nodup (trueIndices_pairwise ha).nodup]

section

variable {a : Bitmap} (h : a.trueIndices ≠ []) (v : UInt32) (rest : List UInt32)

include h

/-- A pick uses one draw just if that is kept. -/
theorem used_pick_cons_eq_one_iff :
    (a.pick (v :: rest)).used = 1 ↔ Draw.accepts a.trueIndices.length v = true := by
  have hmore : 0 < (a.pick rest).used := by
    rw [pick_eq h]
    exact Draw.choose_used_pos _ _
  rw [pick_cons h]
  split
  · next hkept => exact ⟨fun _ => hkept, fun _ => rfl⟩
  · next hkept =>
    constructor
    · intro hone
      exact absurd (Nat.succ.inj hone) (Nat.pos_iff_ne_zero.mp hmore)
    · intro haccepts
      exact absurd haccepts hkept

/-- An index is picked with one draw just if that is kept and chooses the place of the index. -/
theorem pick_cons_eq_iff (hnodup : a.trueIndices.Nodup) {c : Nat} {j : UInt64}
    (hj : a.trueIndices[c]? = some j) :
    a.pick (v :: rest) = ⟨some j, 1⟩ ↔
      Draw.accepts a.trueIndices.length v = true ∧ Draw.choice a.trueIndices.length v = c := by
  have hlt : c < a.trueIndices.length := (List.getElem?_eq_some_iff.mp hj).1
  constructor
  · intro hpick
    have hkept : Draw.accepts a.trueIndices.length v = true := by
      rw [← used_pick_cons_eq_one_iff h v rest, hpick]
    rw [pick_cons h, if_pos hkept, Pick.mk.injEq, ← hj] at hpick
    exact ⟨hkept, ((List.getElem?_inj hlt hnodup).mp hpick.1.symm).symm⟩
  · rintro ⟨hkept, rfl⟩
    rw [pick_cons h, if_pos hkept, hj]

end

/-! ## Without knowing the draws -/

section

variable {a : Bitmap} (hlt : a.trueIndices.length < 2 ^ 32)

include hlt

/-- Some draws lead to an index just if it is that of a flag that is set. -/
theorem exists_pick_iff (i : UInt64) :
    (∃ draws, (a.pick draws).index = some i) ↔ i ∈ a.trueIndices := by
  constructor
  · rintro ⟨draws, hpick⟩
    by_cases h : a.trueIndices = []
    · rw [pick, h] at hpick
      cases hpick
    · rw [pick_eq h] at hpick
      exact List.mem_of_getElem? hpick
  · intro hi
    obtain ⟨c, hc⟩ := List.getElem?_of_mem hi
    obtain ⟨v, hkept, hchoice⟩ :=
      Draw.exists_kept (List.length_pos_of_mem hi) hlt (List.getElem?_eq_some_iff.mp hc).1
    refine ⟨[v], ?_⟩
    rw [pick_cons (List.ne_nil_of_mem hi), if_pos hkept, hchoice, hc]

/-- The indices that may come up in `n` picks are those that do come up for some draws. -/
theorem mem_eligible_iff (n : Nat) (i : UInt64) :
    i ∈ a.eligible n ↔ ∃ rounds : List (List UInt32), rounds.length = n ∧
      ∃ draws ∈ rounds, (a.pick draws).index = some i := by
  cases n with
  | zero =>
    constructor
    · intro h
      cases h
    · rintro ⟨rounds, hlen, draws, hdraws, -⟩
      rw [List.eq_nil_of_length_eq_zero hlen] at hdraws
      cases hdraws
  | succ n =>
    rw [eligible, if_neg (Nat.succ_ne_zero n), ← exists_pick_iff hlt]
    constructor
    · rintro ⟨draws, hpick⟩
      have hmem : draws ∈ List.replicate (n + 1) draws :=
        List.mem_replicate.mpr ⟨Nat.succ_ne_zero n, rfl⟩
      exact ⟨_, List.length_replicate, draws, hmem, hpick⟩
    · rintro ⟨rounds, -, draws, -, hpick⟩
      exact ⟨draws, hpick⟩

end

end Bitmap

namespace Session

/--
**Every flag that is set has the same chance to be picked.**

A bitmap of a reachable session has `k` flags set, one at least and fewer than there are draws. A
draw is kept if the lower half of its product with `k` is below `k` with its leading zeros put
behind it, and then the upper half is the place of the pick among the set indices. Otherwise the
pick goes on with the draws that follow. So the indices that are picked are set, each of them is
picked by as many draws as any other, a power of two that only depends on `k`, and half of all draws
are kept or more.
-/
theorem pick_uniform {w : Session} (hw : Reachable w) {s : String} {a : Bitmap}
    (ha : w.slot s = some a) {k : Nat}
    (hk : (Finset.univ.filter fun i : UInt64 => a.test i = true).card = k) (hpos : 0 < k)
    (hlt : k < 2 ^ 32) (rest : List UInt32) :
    (∀ v : UInt32, a.pick (v :: rest) =
      if v.toNat * k % 2 ^ 32 ≤ (k <<< Draw.leadingZeros k) - 1 then
        ⟨a.trueIndices[v.toNat * k / 2 ^ 32]?, 1⟩
      else ⟨(a.pick rest).index, (a.pick rest).used + 1⟩) ∧
    (∀ v : UInt32, (a.pick (v :: rest)).used = 1 ↔
      v.toNat * k % 2 ^ 32 ≤ (k <<< Draw.leadingZeros k) - 1) ∧
    (∀ v : UInt32, (a.pick (v :: rest)).used = 1 →
      ∃ j, (a.pick (v :: rest)).index = some j ∧ a.test j = true) ∧
    (∀ j, a.test j = true →
      Draw.count (fun v => a.pick (v :: rest) = ⟨some j, 1⟩) = 2 ^ Draw.leadingZeros k) ∧
    Draw.count (fun v => (a.pick (v :: rest)).used = 1) = k * 2 ^ Draw.leadingZeros k ∧
    2 ^ 31 ≤ Draw.count (fun v => (a.pick (v :: rest)).used = 1) ∧
    (∀ draws, w.step (.pick s draws) = (.plain (.pick (a.pick draws)), w)) := by
  have hwords := (hw.wellFormed s a ha).size_words
  obtain rfl : k = a.trueIndices.length := hk.symm.trans (Bitmap.card_test hwords)
  have hne : a.trueIndices ≠ [] := List.ne_nil_of_length_pos hpos
  have hnodup : a.trueIndices.Nodup := (Bitmap.trueIndices_pairwise hwords).nodup
  have hkept : ∀ v, (a.pick (v :: rest)).used = 1 ↔
      Draw.accepts a.trueIndices.length v = true :=
    fun v => Bitmap.used_pick_cons_eq_one_iff hne v rest
  have hcount : Draw.count (fun v => (a.pick (v :: rest)).used = 1) =
      a.trueIndices.length * 2 ^ Draw.leadingZeros a.trueIndices.length :=
    (Draw.count_congr hkept).trans (Draw.count_accepts hpos hlt)
  refine ⟨?_, ?_, ?_, ?_, hcount, ?_, ?_⟩
  · intro v
    rw [Bitmap.pick_cons hne]
    simp only [Draw.accepts_iff_le hpos hlt]
    rfl
  · intro v
    rw [hkept, Draw.accepts_iff_le hpos hlt]
  · intro v hone
    have hchoice := Draw.choice_lt hpos v
    rw [Bitmap.pick_cons hne, if_pos ((hkept v).mp hone)]
    exact ⟨_, List.getElem?_eq_getElem hchoice,
      (Bitmap.mem_trueIndices hwords _).mp (List.getElem_mem hchoice)⟩
  · intro j hj
    obtain ⟨c, hc⟩ := List.getElem?_of_mem ((Bitmap.mem_trueIndices hwords j).mpr hj)
    have hcount_j := Draw.count_congr fun v => Bitmap.pick_cons_eq_iff hne v rest hnodup hc
    exact hcount_j.trans (Draw.count_kept hpos hlt (List.getElem?_eq_some_iff.mp hc).1)
  · rw [hcount]
    exact (Draw.shifted_bounds hpos hlt).1
  · intro draws
    simp only [step, askPresent, ask, ha, Option.elim_some]

/-- Three of seventy flags: each is picked by a quarter of the draws. -/
theorem pick_uniform_three :
    ∃ w : Session, Reachable w ∧ ∃ a : Bitmap, w.slot "s" = some a ∧
      (Finset.univ.filter fun i : UInt64 => a.test i = true).card = 3 ∧ 0 < 3 ∧ 3 < 2 ^ 32 ∧
      a.test 64 = true ∧
      Draw.count (fun v => a.pick [v] = ⟨some 64, 1⟩) = 2 ^ 30 ∧
      Draw.count (fun v => (a.pick [v]).used = 1) = 3 * 2 ^ 30 := by
  have hreach := Reachable.start.run
    [.create "s" 70, .set "s" 3 true, .set "s" 64 true, .set "s" 69 true]
  have hwords := (hreach.wellFormed "s" _ rfl).size_words
  have hthree := (Bitmap.card_test hwords).trans (show _ = 3 by decide)
  have hzeros : Draw.leadingZeros 3 = 30 := by decide
  obtain ⟨-, -, -, hshare, hall, -⟩ :=
    pick_uniform hreach (s := "s") rfl hthree (by decide) (by decide) []
  rw [hzeros] at hshare hall
  have hset : (((((Bitmap.zeroed 70).set 3 true).2.set 64 true).2.set 69 true).2).test 64 = true := by
    decide
  exact ⟨_, hreach, _, rfl, hthree, by decide, by decide, hset, hshare 64 hset, hall⟩

end Session

end PackedBits
