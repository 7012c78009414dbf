import PackedBits.Proofs.Bounds.Sizes
import PackedBits.Proofs.Session.Reachable

/-!
# Nothing is reached beyond the end

The sizes of a bitmap are told in flags and its content is kept in words, so an index that is in
range among the flags has to be led to a word that is there. It is, in a well-formed bitmap, and by
this alone: the flags of a word that is missing would be looked for beyond the end.

Here the operations that look into words, copy rows of them or shift them are written once more,
with steps that are refused where they go wrong (`Checked`). Each of them comes to the value of the
operation that it is named for, so no step of it is refused.

Bytes are gathered into words by going through the words and the groups of bytes side by side. That
ends with the shorter row, and would lose the rest of the longer one. The two are of one length
because rounding up to bytes and then to words is rounding up to words.

## Main statements

* `testChecked_eq`, `setChecked_eq`, `trueIndicesChecked_eq` — they rely on the number of words
* `forall_testChecked_eq_iff` — and cannot do without
* `resizedChecked_eq`, `overwrittenChecked_eq` — they do not
* `ofBytesChecked_eq` — no word and no byte is left over
* `accesses_in_range` — all of it for the bitmaps of a session
-/

namespace PackedBits

namespace Bitmap

/-! ## Single flags -/

/-- `test`, refused where there is no such word or the shift is too far. -/
def testChecked (a : Bitmap) (i : UInt64) : Checked Bool :=
  if i < a.size then do
    let w ← Checked.get a.words (Word.indexOf i)
    let shifted ← Checked.shiftRight w (Word.offsetOf i)
    .ok (shifted &&& 1 == 1)
  else .ok false

/-- `set`, refused where there is no such word or the shift is too far. -/
def setChecked (a : Bitmap) (i : UInt64) (v : Bool) : Checked (Bool × Bitmap) :=
  if i < a.size then do
    let flag ← Checked.shiftLeft 1 (Word.offsetOf i)
    let words ← Checked.modify a.words (Word.indexOf i) fun w =>
      if v then w ||| flag else w &&& ~~~flag
    .ok (true, { a with words := words })
  else .ok (false, a)

theorem offsetOf_lt (i : UInt64) : Word.offsetOf i < 64 := by
  rw [UInt64.lt_iff_toNat_lt, Word.toNat_offsetOf]
  exact Nat.mod_lt _ (by decide)

section

variable {a : Bitmap} (ha : (Word.countFor a.size).toNat ≤ a.words.size)

include ha

/-- The word of an index in range is there. -/
theorem indexOf_lt {i : UInt64} (hi : i < a.size) : (Word.indexOf i).toNat < a.words.size := by
  rw [UInt64.lt_iff_toNat_lt] at hi
  rw [Word.toNat_countFor] at ha
  rw [Word.toNat_indexOf]
  omega

theorem testChecked_eq (i : UInt64) : a.testChecked i = .ok (a.test i) := by
  unfold testChecked test
  split
  · next hi =>
    have hword := indexOf_lt ha hi
    rw [Checked.get_eq hword, Checked.ok_bind, Checked.shiftRight_eq _ (offsetOf_lt i),
      Checked.ok_bind, Array.getD_eq_getD_getElem?, Array.getElem?_eq_getElem hword,
      Option.getD_some, Word.test]
  · rfl

theorem setChecked_eq (i : UInt64) (v : Bool) : a.setChecked i v = .ok (a.set i v) := by
  unfold setChecked set
  split
  · next hi =>
    rw [Checked.shiftLeft_eq 1 (offsetOf_lt i), Checked.ok_bind,
      Checked.modify_eq (indexOf_lt ha hi), Checked.ok_bind]
    rfl
  · rfl

end

/--
**Looking at flags is never refused just if there are enough words.** The first flag that has no
word would be looked for right behind the last one.
-/
theorem forall_testChecked_eq_iff (a : Bitmap) :
    (∀ i, a.testChecked i = .ok (a.test i)) ↔ (Word.countFor a.size).toNat ≤ a.words.size := by
  constructor
  · intro h
    refine Nat.not_lt.mp fun hfew => ?_
    rw [Word.toNat_countFor] at hfew
    -- The index behind the last word is in range, hence a number of 64 bits.
    have hrange : 64 * a.words.size < a.size.toNat := by omega
    have hindex : (UInt64.ofNat (64 * a.words.size)).toNat = 64 * a.words.size :=
      Word.toNat_ofNat_of_lt hrange
    have hi : UInt64.ofNat (64 * a.words.size) < a.size := by
      rw [UInt64.lt_iff_toNat_lt, hindex]
      exact hrange
    have hword : ¬ (Word.indexOf (UInt64.ofNat (64 * a.words.size))).toNat < a.words.size := by
      rw [Word.toNat_indexOf, hindex]
      omega
    have hrefused := h (UInt64.ofNat (64 * a.words.size))
    rw [testChecked, if_pos hi, Checked.get, dif_neg hword] at hrefused
    cases hrefused
  · intro h i
    exact testChecked_eq h i

/-! ## Padding -/

/-- The mask of the last word, without wrapping around or shifting too far. -/
def lastMaskChecked (a : Bitmap) : Checked Word := do
  let kept ← Word.lastBitsChecked a.size
  Word.lowMaskChecked kept

/-- `hasPadding`, made with the checked mask. -/
def hasPaddingChecked (a : Bitmap) : Checked Bool :=
  match a.words.back? with
  | none => .ok false
  | some last => do
    let mask ← a.lastMaskChecked
    .ok (last &&& ~~~mask != 0)

/-- `clearPadding`, made with the checked mask. -/
def clearPaddingChecked (a : Bitmap) : Checked Bitmap := do
  let mask ← a.lastMaskChecked
  .ok { a with words := a.words.modify (a.words.size - 1) (· &&& mask) }

theorem lastMaskChecked_eq (a : Bitmap) : a.lastMaskChecked = .ok a.lastMask := by
  rw [lastMaskChecked, Word.lastBitsChecked_eq, Checked.ok_bind, Word.lowMaskChecked_eq, lastMask]

theorem hasPaddingChecked_eq (a : Bitmap) : a.hasPaddingChecked = .ok a.hasPadding := by
  rw [hasPaddingChecked, hasPadding, lastMaskChecked_eq]
  cases a.words.back? with
  | none => rfl
  | some last => rfl

theorem clearPaddingChecked_eq (a : Bitmap) : a.clearPaddingChecked = .ok a.clearPadding := by
  rw [clearPaddingChecked, lastMaskChecked_eq, Checked.ok_bind, clearPadding]

/-! ## Copies -/

/-- `resized`: the words that both have are copied from front to front, if both have so many. -/
def resizedChecked (a : Bitmap) (bits : UInt64) : Checked Bitmap := do
  let count ← Word.countForChecked bits
  let words ← Checked.copyFront (Array.replicate count.toNat 0) a.words
    (min count.toNat a.words.size)
  clearPaddingChecked ⟨bits, words⟩

/-- `overwritten`: the words that both have are copied from front to front, if both have so many. -/
def overwrittenChecked (a src : Bitmap) : Checked Bitmap := do
  let words ← Checked.copyFront a.words src.words (min a.words.size src.words.size)
  clearPaddingChecked { a with words := words }

theorem resizedChecked_eq (a : Bitmap) (bits : UInt64) :
    a.resizedChecked bits = .ok (a.resized bits) := by
  -- What is left of the zeros is what `resized` fills up with.
  have hwords : ∀ count : Nat,
      a.words.extract 0 (min count a.words.size) ++
        (Array.replicate count 0).extract (min count a.words.size) count =
      a.words.extract 0 count ++
        Array.replicate (count - (a.words.extract 0 count).size) 0 := by
    intro count
    rw [Array.extract_replicate, Array.size_extract, Nat.min_self, Nat.sub_zero,
      Array.extract_eq_extract_right.mpr
        (show min (min count a.words.size - 0) _ = min (count - 0) _ by omega)]
  rw [resizedChecked, Word.countForChecked_eq, Checked.ok_bind,
    Checked.copyFront_eq (by rw [Array.size_replicate]; omega) (by omega), Checked.ok_bind,
    clearPaddingChecked_eq, Array.size_replicate, hwords]
  rfl

theorem overwrittenChecked_eq (a src : Bitmap) :
    a.overwrittenChecked src = .ok (a.overwritten src) := by
  rw [overwrittenChecked, Checked.copyFront_eq (by omega) (by omega), Checked.ok_bind,
    clearPaddingChecked_eq, Checked.copied_eq_mapIdx]
  rfl

/-! ## All flags -/

/-- The scan of a word from place to place, up to the first one that keeps no flag. -/
def scanChecked (size first : UInt64) (w : Word) : List UInt64 → Checked (List UInt64)
  | [] => .ok []
  | j :: rest => do
    let i ← Checked.add first j
    if i < size then do
      let shifted ← Checked.shiftRight w j
      let later ← scanChecked size first w rest
      .ok (if shifted &&& 1 == 1 then i :: later else later)
    else .ok []

/-- `wordIndices`, without wrapping around or shifting too far. -/
def wordIndicesChecked (size : UInt64) (k : Nat) (w : Word) : Checked (List UInt64) :=
  if w = 0 then .ok []
  else do
    let first ← Word.firstPlaceChecked k
    scanChecked size first w offsets

/-- `trueIndices`, without wrapping around or shifting too far. -/
def trueIndicesChecked (a : Bitmap) : Checked (List UInt64) := do
  let found ← a.words.toList.zipIdx.mapM fun (w, k) => wordIndicesChecked a.size k w
  .ok found.flatten

theorem scanChecked_eq (size first : UInt64) (w : Word) {js : List UInt64}
    (hadd : ∀ j ∈ js, Checked.add first j = .ok (first + j)) (hshift : ∀ j ∈ js, j < 64) :
    scanChecked size first w js =
      .ok (((js.map (first + ·)).takeWhile (· < size)).filter fun i => Word.test w (i - first)) := by
  induction js with
  | nil => rfl
  | cons j rest ih =>
    obtain ⟨hj, hrest⟩ := List.forall_mem_cons.mp hadd
    obtain ⟨hj64, hrest64⟩ := List.forall_mem_cons.mp hshift
    rw [scanChecked, hj, Checked.ok_bind, List.map_cons]
    by_cases hi : first + j < size
    · rw [if_pos hi, Checked.shiftRight_eq w hj64, Checked.ok_bind, ih hrest hrest64,
        Checked.ok_bind, List.takeWhile_cons_of_pos (by simpa using hi), List.filter_cons,
        UInt64.add_comm first j, UInt64.add_sub_cancel]
      rfl
    · rw [if_neg hi, List.takeWhile_cons_of_neg (by simpa using hi)]
      rfl

theorem lt_of_mem_offsets {j : UInt64} (h : j ∈ offsets) : j < 64 := by
  obtain ⟨n, hn, rfl⟩ := List.mem_map.mp h
  rw [List.mem_range, Word.width] at hn
  rw [UInt64.lt_iff_toNat_lt, UInt64.toNat_ofNat_of_lt' (Nat.lt_trans hn (by decide))]
  exact hn

theorem wordIndicesChecked_eq (size : UInt64) {k : Nat} (hfit : 64 * k + 64 ≤ UInt64.size)
    (w : Word) : wordIndicesChecked size k w = .ok (wordIndices size k w) := by
  unfold wordIndicesChecked wordIndices
  split
  · rfl
  · rw [Word.firstPlaceChecked_eq (by omega), Checked.ok_bind]
    exact scanChecked_eq size _ w
      (fun j hj => Word.add_firstPlace_eq hfit (lt_of_mem_offsets hj))
      (fun j hj => lt_of_mem_offsets hj)

theorem trueIndicesChecked_eq {a : Bitmap} (ha : a.words.size = (Word.countFor a.size).toNat) :
    a.trueIndicesChecked = .ok a.trueIndices := by
  have hword : ∀ x ∈ a.words.toList.zipIdx,
      wordIndicesChecked a.size x.2 x.1 = .ok (wordIndices a.size x.2 x.1) := by
    rintro ⟨w, k⟩ hx
    have hk : k < (Word.countFor a.size).toNat := by
      have hlt := List.snd_lt_of_mem_zipIdx hx
      rw [Array.length_toList] at hlt
      rw [← ha]
      omega
    exact wordIndicesChecked_eq a.size (Word.places_fit hk) w
  rw [trueIndicesChecked, Checked.mapM_eq hword, Checked.ok_bind, trueIndices, List.flatMap_def]

/-! ## Bytes -/

/-- The word of a group of bytes, which are copied into eight. -/
def octetChecked (group : List UInt8) : Checked Word := do
  let bytes ← Checked.copyFront (Array.replicate 8 0) group.toArray group.length
  .ok (Word.ofBytes bytes.toList)

/-- Words and groups of bytes side by side. Each word becomes that of its group. -/
def fillChecked : List Word → List (List UInt8) → Checked (List Word)
  | [], [] => .ok []
  | _ :: ws, group :: groups => do
    let w ← octetChecked group
    let later ← fillChecked ws groups
    .ok (w :: later)
  | [], _ :: _ | _ :: _, [] => .error .leftOver

/-- `ofBytes`, refused where a word or a byte is left over. -/
def ofBytesChecked (bits : UInt64) (bytes : List UInt8) : Checked (Except DecodeError Bitmap) :=
  if bits = 0 then .ok (.error .zeroBits)
  else do
    let expected ← Word.byteCountForChecked bits
    if bytes.length ≠ expected.toNat then
      .ok (.error (.byteCount bits expected.toNat bytes.length))
    else do
      let count ← Word.countForChecked bits
      let words ← fillChecked (List.replicate count.toNat 0) (octets bytes)
      let padded ← hasPaddingChecked ⟨bits, words.toArray⟩
      .ok (if padded then .error (.padding bits) else .ok ⟨bits, words.toArray⟩)

theorem octetChecked_eq {group : List UInt8} (h : group.length ≤ 8) :
    octetChecked group = .ok (Word.ofBytes group) := by
  have hbuffer : (group.toArray.extract 0 group.length ++
      (Array.replicate 8 0).extract group.length 8).toList =
        group ++ List.replicate (8 - group.length) 0 := by
    simp
  rw [octetChecked, Checked.copyFront_eq (by rw [Array.size_replicate]; exact h) (by simp),
    Checked.ok_bind, Array.size_replicate, hbuffer, Bytes.ofBytes_append_zeros (by omega)]

theorem fillChecked_eq {ws : List Word} {groups : List (List UInt8)}
    (hlen : ws.length = groups.length) (hgroup : ∀ group ∈ groups, group.length ≤ 8) :
    fillChecked ws groups = .ok (groups.map Word.ofBytes) := by
  induction groups generalizing ws with
  | nil =>
    obtain rfl := List.eq_nil_of_length_eq_zero hlen
    rfl
  | cons group groups ih =>
    obtain ⟨w, ws, rfl⟩ := List.exists_cons_of_length_eq_add_one hlen
    obtain ⟨hfirst, hrest⟩ := List.forall_mem_cons.mp hgroup
    rw [fillChecked, octetChecked_eq hfirst, Checked.ok_bind, ih (Nat.succ.inj hlen) hrest,
      Checked.ok_bind, List.map_cons]

/-- There are as many groups of bytes as there are words. -/
theorem length_octets_eq {bits : UInt64} {bytes : List UInt8}
    (h : bytes.length = (Word.byteCountFor bits).toNat) :
    (octets bytes).length = (Word.countFor bits).toNat := by
  rw [← size_words_packed h, packed, List.size_toArray, List.length_map]

theorem ofBytesChecked_eq (bits : UInt64) (bytes : List UInt8) :
    ofBytesChecked bits bytes = .ok (ofBytes bits bytes) := by
  by_cases h0 : bits = 0
  · rw [ofBytesChecked, ofBytes, if_pos h0, if_pos h0]
  rw [ofBytesChecked, if_neg h0, Word.byteCountForChecked_eq, Checked.ok_bind]
  by_cases hlen : bytes.length = (Word.byteCountFor bits).toNat
  · have hfill : fillChecked (List.replicate (Word.countFor bits).toNat 0) (octets bytes) =
        .ok ((octets bytes).map Word.ofBytes) := by
      refine fillChecked_eq ?_ fun group hgroup => (length_of_mem_octets hgroup).2
      rw [List.length_replicate, length_octets_eq hlen]
    rw [if_neg (not_not_intro hlen), Word.countForChecked_eq, Checked.ok_bind, hfill,
      Checked.ok_bind, hasPaddingChecked_eq, Checked.ok_bind,
      ofBytes_of_length h0 (by rw [hlen, Word.toNat_byteCountFor])]
    rfl
  · rw [if_pos hlen, ofBytes, if_neg h0, if_pos hlen]

end Bitmap

namespace Session

/--
**No operation on a bitmap of a session reaches beyond the end of anything, or shifts too far.**

Take any bitmap of a reachable session, also between the writes of writers that share it. The word
of an index in range is there. Looking at a flag and writing one, for any index, copying to any size,
an update from any source, and the scan for the flags that are set are never refused, and are what
they are without refusals. So is a mask of any number of bits. Every flag is less than a whole word
away from the first place of its word, and so is every place that the scan tries.

Nor is decoding from bytes refused, for any number of flags and any bytes. Where their number is
right, there are as many groups of bytes as there are words to fill, the groups are made of all the
bytes, and each of them fits into a word.

What all of this rests on is the number of words, and it cannot do without: whatever the words are,
looking at flags is never refused just if there are as many of them as the flags need, or more.
-/
theorem accesses_in_range :
    (∀ w : Session, Reachable w → ∀ (s : String) (a : Bitmap), w.slot s = some a →
      (∀ i, i < a.size → (Word.indexOf i).toNat < a.words.size) ∧
      (∀ i, a.testChecked i = .ok (a.test i)) ∧
      (∀ i v, a.setChecked i v = .ok (a.set i v)) ∧
      (∀ bits, a.resizedChecked bits = .ok (a.resized bits)) ∧
      (∀ src, a.overwrittenChecked src = .ok (a.overwritten src)) ∧
      a.trueIndicesChecked = .ok a.trueIndices) ∧
    (∀ n, Word.lowMaskChecked n = .ok (Word.lowMask n)) ∧
    (∀ i, Word.offsetOf i < 64) ∧
    (∀ j ∈ Bitmap.offsets, j < 64) ∧
    (∀ bits bytes, Bitmap.ofBytesChecked bits bytes = .ok (Bitmap.ofBytes bits bytes)) ∧
    (∀ bits bytes, bytes.length = (Word.byteCountFor bits).toNat →
      (Bitmap.octets bytes).length = (Bitmap.zeroed bits).words.size ∧
      (Bitmap.octets bytes).flatten = bytes ∧
      ∀ group ∈ Bitmap.octets bytes, 0 < group.length ∧ group.length ≤ 8) ∧
    (∀ a : Bitmap, (∀ i, a.testChecked i = .ok (a.test i)) ↔
      (Word.countFor a.size).toNat ≤ a.words.size) := by
  refine ⟨?_, Word.lowMaskChecked_eq, Bitmap.offsetOf_lt, fun _ => Bitmap.lt_of_mem_offsets,
    Bitmap.ofBytesChecked_eq, ?_, Bitmap.forall_testChecked_eq_iff⟩
  · intro w hw s a ha
    have hsize : a.words.size = (Word.countFor a.size).toNat := (hw.wellFormed s a ha).size_words
    have henough : (Word.countFor a.size).toNat ≤ a.words.size := Nat.le_of_eq hsize.symm
    exact ⟨fun i hi => Bitmap.indexOf_lt henough hi, Bitmap.testChecked_eq henough,
      Bitmap.setChecked_eq henough, Bitmap.resizedChecked_eq a, Bitmap.overwrittenChecked_eq a,
      Bitmap.trueIndicesChecked_eq hsize⟩
  · intro bits bytes hlen
    refine ⟨?_, Bitmap.flatten_octets bytes, fun group hgroup => Bitmap.length_of_mem_octets hgroup⟩
    rw [Bitmap.length_octets_eq hlen, (Bitmap.zeroed_wellFormed bits).size_words]
    rfl

/-- The last of seventy flags is in the second word, and their ninth byte is a group of its own. -/
theorem accesses_in_range_seventy :
    ∃ w : Session, Reachable w ∧ ∃ a : Bitmap, w.slot "a" = some a ∧
      (69 : UInt64) < a.size ∧ (Word.indexOf 69).toNat < a.words.size ∧
      a.testChecked 69 = .ok true ∧ a.trueIndicesChecked = .ok [69] ∧
      (List.replicate 9 (1 : UInt8)).length = (Word.byteCountFor 70).toNat ∧
      (Bitmap.octets (List.replicate 9 1)).length = (Bitmap.zeroed 70).words.size := by
  obtain ⟨hbitmaps, -, -, -, -, hgroups, -⟩ := accesses_in_range
  have hreach := Reachable.start.run [.create "a" 70, .set "a" 69 true]
  obtain ⟨hindex, htest, -, -, -, hscan⟩ := hbitmaps _ hreach "a" _ rfl
  have hlast : (69 : UInt64) < 70 := by decide
  have hlen : (List.replicate 9 (1 : UInt8)).length = (Word.byteCountFor 70).toNat := by decide
  refine ⟨_, hreach, _, rfl, hlast, hindex 69 hlast, ?_, ?_, hlen, (hgroups 70 _ hlen).1⟩
  · exact (htest 69).trans (by decide)
  · exact hscan.trans (by decide)

end Session

end PackedBits
