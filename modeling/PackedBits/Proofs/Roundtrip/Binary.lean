import PackedBits.Session
import PackedBits.Proofs.Bits.Bytes

/-!
# The binary form is a prefix code

A byte string is decoded to a bitmap just if it begins with the binary form of that bitmap, and
bytes behind it make no difference. So the binary forms of two bitmaps never begin with each other,
and a binary form that breaks off early is refused.

All this follows from one law for each part of the form: reading gives a value and a rest just if
the bytes are the written value followed by the rest (`takeWord?_eq_some_iff`,
`takeWords?_eq_some_iff`, `readBinary?_eq_some_iff`).

## Main statements

* `length_toBinary`, `bit_toBinary` — the form, bit by bit
* `ofBinary_prefixCode`, `optionOfBinary_prefixCode` — what is accepted, with and without a bitmap
* `PrefixCode.refused`, `PrefixCode.unique`, `PrefixCode.truncated` — what follows from it
* `ofBinary_exact` — the same, all together
-/

namespace PackedBits

namespace Bitmap

/-! ## Parts -/

theorem takeWord?_append (w : Word) (rest : List UInt8) :
    takeWord? (w.toBytes ++ rest) = some (w, rest) := by
  have hlen := Word.length_toBytes w
  rw [takeWord?, List.take_left' hlen, List.drop_left' hlen, if_pos hlen, Word.ofBytes_toBytes]

/-- A word is read just where one was written. -/
theorem takeWord?_eq_some_iff {bytes : List UInt8} {w : Word} {rest : List UInt8} :
    takeWord? bytes = some (w, rest) ↔ bytes = w.toBytes ++ rest := by
  constructor
  · intro h
    simp only [takeWord?] at h
    split at h
    · next hlen =>
      cases h
      rw [Word.toBytes_ofBytes hlen, List.take_append_drop]
    · cases h
  · rintro rfl
    exact takeWord?_append w rest

theorem takeWords?_append (ws : List Word) (rest : List UInt8) :
    takeWords? ws.length (ws.flatMap Word.toBytes ++ rest) = some (ws, rest) := by
  induction ws with
  | nil => rfl
  | cons w ws ih =>
    rw [List.length_cons, List.flatMap_cons, List.append_assoc, takeWords?, takeWord?_append]
    simp only [Option.bind_eq_bind, Option.bind_some, ih]

/-- Words are read just where as many words were written. -/
theorem takeWords?_eq_some_iff {n : Nat} {bytes : List UInt8} {ws : List Word}
    {rest : List UInt8} :
    takeWords? n bytes = some (ws, rest) ↔
      ws.length = n ∧ bytes = ws.flatMap Word.toBytes ++ rest := by
  constructor
  · intro h
    induction n generalizing bytes ws with
    | zero =>
      cases h
      exact ⟨rfl, rfl⟩
    | succ n ih =>
      simp only [takeWords?, Option.bind_eq_bind, Option.bind_eq_some_iff] at h
      obtain ⟨⟨w, after⟩, hw, ⟨vs, last⟩, hvs, h⟩ := h
      cases h
      dsimp only at hvs ih ⊢
      obtain ⟨hlen, hafter⟩ := ih hvs
      rw [takeWord?_eq_some_iff] at hw
      refine ⟨by rw [List.length_cons, hlen], ?_⟩
      rw [hw, hafter, List.flatMap_cons, List.append_assoc]
  · rintro ⟨rfl, rfl⟩
    exact takeWords?_append ws rest

/-- A bitmap is read, without being checked, just where it was written. -/
theorem readBinary?_eq_some_iff {bytes : List UInt8} {a : Bitmap} :
    readBinary? bytes = some a ↔ a.words.size < UInt64.size ∧ a.toBinary <+: bytes := by
  constructor
  · intro h
    simp only [readBinary?, Option.bind_eq_bind, Option.bind_eq_some_iff] at h
    obtain ⟨⟨bits, after⟩, hbits, ⟨count, after'⟩, hcount, ⟨ws, rest⟩, hws, h⟩ := h
    cases h
    dsimp only at hcount hws ⊢
    rw [takeWord?_eq_some_iff] at hbits hcount
    obtain ⟨hlen, hafter⟩ := takeWords?_eq_some_iff.mp hws
    -- so the count that is written for these words is the one that was read
    have hsize : ws.toArray.size = count.toNat := by rw [List.size_toArray, hlen]
    refine ⟨by rw [hsize]; exact count.toNat_lt, rest, ?_⟩
    rw [hbits, hcount, hafter, toBinary, hsize, UInt64.ofNat_toNat, List.append_assoc,
      List.append_assoc]
  · rintro ⟨hsize, rest, rfl⟩
    have hcount : (UInt64.ofNat a.words.size).toNat = a.words.toList.length := by
      rw [UInt64.toNat_ofNat_of_lt' hsize, Array.length_toList]
    simp only [readBinary?, toBinary, List.append_assoc, takeWord?_append, Option.bind_eq_bind,
      Option.bind_some, hcount, takeWords?_append, Array.toArray_toList]

theorem WellFormed.size_words_lt {a : Bitmap} (ha : a.WellFormed) :
    a.words.size < UInt64.size := by
  rw [ha.size_words]
  exact (Word.countFor a.size).toNat_lt

/-! ## Layout -/

theorem length_toBinary (a : Bitmap) : a.toBinary.length = 16 + 8 * a.words.size := by
  rw [toBinary, List.length_append, List.length_append, Word.length_toBytes, Word.length_toBytes,
    Bytes.length_flatMap_toBytes, Array.length_toList]

/-- The number of flags, the number of words, and then the words, all of them lowest bit first. -/
theorem bit_toBinary {a : Bitmap} (hsize : a.words.size < UInt64.size) (p : Nat) :
    Bytes.bit a.toBinary p =
      if p < 64 then a.size.toNat.testBit p
      else if p < 128 then a.words.size.testBit (p - 64)
      else a.bit (p - 128) := by
  rw [toBinary, List.append_assoc, Bytes.bit_append, Word.length_toBytes, Bytes.bit_append,
    Word.length_toBytes, Bytes.bit_toBytes, Bytes.bit_toBytes, bit_flatMap_toBytes,
    UInt64.toNat_ofNat_of_lt' hsize]
  by_cases hp : p < 64
  · rw [if_pos hp, if_pos hp]
  · rw [if_neg hp, if_neg hp, Nat.sub_sub]
    by_cases hp' : p < 128
    · rw [if_pos hp', if_pos (by omega)]
    · rw [if_neg hp', if_neg (by omega)]

end Bitmap

/-! ## Prefix codes -/

/--
Decoding accepts just the byte strings that begin with the form of a valid value, and gives that
value. It refuses all others, as being no binary form.
-/
structure PrefixCode {α : Type} (valid : α → Prop) (encode : α → List UInt8)
    (decode : List UInt8 → Except DecodeError α) : Prop where
  accepts_iff : ∀ bytes x, decode bytes = .ok x ↔ valid x ∧ encode x <+: bytes
  refuses : ∀ bytes e, decode bytes = .error e → ∃ b, e = .binary b

namespace PrefixCode

variable {α : Type} {valid : α → Prop} {encode : α → List UInt8}
  {decode : List UInt8 → Except DecodeError α}

/-- What does not begin with the form of a valid value is refused. -/
theorem refused (h : PrefixCode valid encode decode) {bytes : List UInt8}
    (hno : ∀ x, valid x → ¬ encode x <+: bytes) : ∃ b, decode bytes = .error (.binary b) := by
  cases hd : decode bytes with
  | error e =>
    obtain ⟨b, rfl⟩ := h.refuses bytes e hd
    exact ⟨b, rfl⟩
  | ok x =>
    obtain ⟨hx, hpre⟩ := (h.accepts_iff bytes x).mp hd
    exact absurd hpre (hno x hx)

/-- The form of a value does not begin with that of another. -/
theorem unique (h : PrefixCode valid encode decode) {x y : α} (hx : valid x) (hy : valid y)
    (hpre : encode x <+: encode y) : x = y := by
  have hdx : decode (encode y) = .ok x := (h.accepts_iff _ x).mpr ⟨hx, hpre⟩
  have hdy : decode (encode y) = .ok y := (h.accepts_iff _ y).mpr ⟨hy, List.prefix_rfl⟩
  exact Except.ok.inj (hdx.symm.trans hdy)

/-- A form that breaks off early is refused. -/
theorem truncated (h : PrefixCode valid encode decode) {x : α} (hx : valid x)
    {bytes : List UInt8} (hpre : bytes <+: encode x) (hne : bytes ≠ encode x) :
    ∃ b, decode bytes = .error (.binary b) := by
  -- a form that these bytes begin with is also one that the whole form begins with
  refine h.refused fun y hy hy' => hne ?_
  obtain rfl := h.unique hy hx (hy'.trans hpre)
  exact hpre.eq_of_length (Nat.le_antisymm hpre.length_le hy'.length_le)

end PrefixCode

namespace Bitmap

/-! ## Bitmaps -/

/-- The binary form, whatever comes behind it, is judged by the check alone. -/
theorem ofBinary_append_eq_check {a : Bitmap} (hsize : a.words.size < UInt64.size)
    (rest : List UInt8) :
    ofBinary (a.toBinary ++ rest) = a.check.map (·.mapError fun m => .binary (.mismatch m)) := by
  have hread : readBinary? (a.toBinary ++ rest) = some a :=
    readBinary?_eq_some_iff.mpr ⟨hsize, List.prefix_append _ rest⟩
  rw [ofBinary, hread]

/-- That of a well-formed bitmap is decoded without an event. -/
theorem ofBinary_append {a : Bitmap} (ha : a.WellFormed) (rest : List UInt8) :
    ofBinary (a.toBinary ++ rest) = ⟨.ok a, []⟩ := by
  rw [ofBinary_append_eq_check ha.size_words_lt, check_of_wellFormed ha]
  rfl

theorem ofBinary_prefixCode :
    PrefixCode WellFormed toBinary fun bytes => (ofBinary bytes).value where
  accepts_iff bytes a := by
    constructor
    · intro h
      unfold ofBinary at h
      split at h
      · cases h
      · next b hread =>
        rw [Logged.value_map, mapError_eq_ok_iff, value_check_eq_ok_iff] at h
        obtain ⟨rfl, hwf⟩ := h
        exact ⟨hwf, (readBinary?_eq_some_iff.mp hread).2⟩
    · rintro ⟨ha, rest, rfl⟩
      rw [ofBinary_append ha]
  refuses bytes e h := by
    unfold ofBinary at h
    split at h
    · cases h
      exact ⟨_, rfl⟩
    · next b hread =>
      rw [Logged.value_map, mapError_eq_error_iff] at h
      obtain ⟨m, -, rfl⟩ := h
      exact ⟨_, rfl⟩

/-! ## A bitmap or none -/

/-- The mark of a bitmap is followed by its form. -/
theorem optionOfBinary_one_cons (bytes : List UInt8) :
    optionOfBinary (1 :: bytes) = (ofBinary bytes).map (·.map some) := by
  rw [optionOfBinary, if_neg (by decide), if_pos rfl]

theorem optionOfBinary_append {x : Slot} (hx : x.WellFormed) (rest : List UInt8) :
    optionOfBinary (optionToBinary x ++ rest) = ⟨.ok x, []⟩ := by
  cases x with
  | none => rfl
  | some a =>
    rw [optionToBinary, List.cons_append, optionOfBinary_one_cons,
      ofBinary_append (Slot.wellFormed_some.mp hx)]
    rfl

theorem optionOfBinary_prefixCode :
    PrefixCode Slot.WellFormed optionToBinary fun bytes => (optionOfBinary bytes).value where
  accepts_iff bytes x := by
    constructor
    · intro h
      unfold optionOfBinary at h
      split at h
      · cases h
      · next tag bytes =>
        split at h
        · next h0 =>
          cases h
          exact ⟨Slot.wellFormed_none, by simp [optionToBinary, h0]⟩
        · split at h
          · next h1 =>
            rw [Logged.value_map, map_eq_ok_iff] at h
            obtain ⟨a, hv, rfl⟩ := h
            obtain ⟨ha, hpre⟩ := (ofBinary_prefixCode.accepts_iff bytes a).mp hv
            refine ⟨Slot.wellFormed_some.mpr ha, ?_⟩
            rw [h1, optionToBinary, List.cons_prefix_cons]
            exact ⟨rfl, hpre⟩
          · cases h
    · rintro ⟨hx, rest, rfl⟩
      rw [optionOfBinary_append hx]
  refuses bytes e h := by
    unfold optionOfBinary at h
    split at h
    · cases h
      exact ⟨_, rfl⟩
    · next tag bytes =>
      split at h
      · cases h
      · split at h
        · rw [Logged.value_map, map_eq_error_iff] at h
          exact ofBinary_prefixCode.refuses bytes e h
        · cases h
          exact ⟨_, rfl⟩

/-! ## Exactness -/

/--
**The binary form is accepted exactly.**

The form is the number of flags, the number of words and the words, each in eight bytes with the
lowest bit first. Bytes are decoded to a well-formed bitmap just if they begin with its binary form,
and all others are refused as no binary form. Where there may be no bitmap, the byte 0 in front says
that there is none, the byte 1 that a binary form follows, and everything else is refused. In both
cases a form that breaks off early is refused, bytes behind a form make no difference, and a form
never begins with another.
-/
theorem ofBinary_exact :
    (∀ a : Bitmap, a.WellFormed →
      a.toBinary.length = 16 + 8 * a.words.size ∧
      ∀ p, Bytes.bit a.toBinary p =
        if p < 64 then a.size.toNat.testBit p
        else if p < 128 then a.words.size.testBit (p - 64)
        else a.bit (p - 128)) ∧
    (∀ (bytes : List UInt8) (a : Bitmap), a.WellFormed →
      ((ofBinary bytes).value = .ok a ↔ a.toBinary <+: bytes)) ∧
    (∀ bytes : List UInt8, (∀ a : Bitmap, a.WellFormed → ¬ a.toBinary <+: bytes) →
      ∃ e, (ofBinary bytes).value = .error (.binary e)) ∧
    (∀ bytes : List UInt8, (optionOfBinary bytes).value = .ok none ↔ [0] <+: bytes) ∧
    (∀ (bytes : List UInt8) (a : Bitmap), a.WellFormed →
      ((optionOfBinary bytes).value = .ok (some a) ↔ 1 :: a.toBinary <+: bytes)) ∧
    (∀ bytes : List UInt8, ¬ [0] <+: bytes →
      (∀ a : Bitmap, a.WellFormed → ¬ 1 :: a.toBinary <+: bytes) →
      ∃ e, (optionOfBinary bytes).value = .error (.binary e)) ∧
    (∀ (bytes : List UInt8) (a : Bitmap), a.WellFormed → bytes <+: a.toBinary →
      bytes ≠ a.toBinary → ∃ e, (ofBinary bytes).value = .error (.binary e)) ∧
    (∀ (bytes : List UInt8) (x : Slot), x.WellFormed → bytes <+: optionToBinary x →
      bytes ≠ optionToBinary x → ∃ e, (optionOfBinary bytes).value = .error (.binary e)) ∧
    (∀ (a : Bitmap) (rest : List UInt8), a.WellFormed →
      ofBinary (a.toBinary ++ rest) = ⟨.ok a, []⟩) ∧
    (∀ (x : Slot) (rest : List UInt8), x.WellFormed →
      optionOfBinary (optionToBinary x ++ rest) = ⟨.ok x, []⟩) ∧
    (∀ a b : Bitmap, a.WellFormed → b.WellFormed → a.toBinary <+: b.toBinary → a = b) ∧
    (∀ x y : Slot, x.WellFormed → y.WellFormed →
      optionToBinary x <+: optionToBinary y → x = y) := by
  have hplain := ofBinary_prefixCode
  have hoption := optionOfBinary_prefixCode
  refine ⟨?_, ?_, ?_, ?_, ?_, ?_, ?_, ?_, ?_, ?_, ?_, ?_⟩
  · intro a ha
    exact ⟨length_toBinary a, bit_toBinary ha.size_words_lt⟩
  · intro bytes a ha
    rw [hplain.accepts_iff, and_iff_right ha]
  · intro bytes hno
    exact hplain.refused hno
  · intro bytes
    rw [hoption.accepts_iff, and_iff_right Slot.wellFormed_none, optionToBinary]
  · intro bytes a ha
    rw [hoption.accepts_iff, and_iff_right (Slot.wellFormed_some.mpr ha), optionToBinary]
  · intro bytes hnone hsome
    refine hoption.refused fun x hx => ?_
    cases x with
    | none => exact hnone
    | some a => exact hsome a (Slot.wellFormed_some.mp hx)
  · intro bytes a ha hpre hne
    exact hplain.truncated ha hpre hne
  · intro bytes x hx hpre hne
    exact hoption.truncated hx hpre hne
  · intro a rest ha
    exact ofBinary_append ha rest
  · intro x rest hx
    exact optionOfBinary_append hx rest
  · intro a b ha hb hpre
    exact hplain.unique ha hb hpre
  · intro x y hx hy hpre
    exact hoption.unique hx hy hpre

/-- Two flags, the last of them set, with a byte behind them and without their last eight bytes. -/
theorem ofBinary_exact_two :
    ∃ a : Bitmap, a.WellFormed ∧
      (ofBinary [2, 0, 0, 0, 0, 0, 0, 0, 1, 0, 0, 0, 0, 0, 0, 0, 2, 0, 0, 0, 0, 0, 0, 0, 7]).value =
        .ok a ∧
      (∃ e, (ofBinary [2, 0, 0, 0, 0, 0, 0, 0, 1, 0, 0, 0, 0, 0, 0, 0]).value =
        .error (.binary e)) ∧
      (optionOfBinary (optionToBinary (some a) ++ [7])).value = .ok (some a) ∧
      (optionOfBinary [0, 7]).value = .ok none := by
  have hwf : ((zeroed 2).set 1 true).2.WellFormed := set_wellFormed (zeroed_wellFormed 2) 1 true
  have hform : ((zeroed 2).set 1 true).2.toBinary =
      [2, 0, 0, 0, 0, 0, 0, 0, 1, 0, 0, 0, 0, 0, 0, 0, 2, 0, 0, 0, 0, 0, 0, 0] := by decide
  obtain ⟨-, haccepts, -, hnone, -, -, htruncated, -, -, hextended, -, -⟩ := ofBinary_exact
  refine ⟨_, hwf, ?_, ?_, ?_, ?_⟩
  · exact (haccepts _ _ hwf).mpr (by rw [hform]; exact ⟨[7], rfl⟩)
  · exact htruncated _ _ hwf (by rw [hform]; exact ⟨[2, 0, 0, 0, 0, 0, 0, 0], rfl⟩)
      (by rw [hform]; decide)
  · rw [hextended _ [7] (Slot.wellFormed_some.mpr hwf)]
  · exact (hnone _).mpr ⟨[7], rfl⟩

end Bitmap

end PackedBits
