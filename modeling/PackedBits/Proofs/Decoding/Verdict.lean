import PackedBits.Proofs.Roundtrip.Binary
import PackedBits.Proofs.Roundtrip.Json

/-!
# One verdict for all decoders

A number of flags and some words can be written in either form whether or not they fit together.
Whatever they are, the decoders of both forms, with and without the choice of no bitmap, come to
the verdict of one check (`Judged`, `judged_check`). They differ only in the words around it.

The check looks at the number of words first, and at the padding only if that number is right. So a
verdict is known from the numbers and the bits alone.

In the binary form the number of words has eight bytes, so it is written down truly only below 2 to
the 64th; the JSON form has no such limit.

## Main statements

* `judged_check` — all decoders agree with the check
* `check_of_size_ne`, `check_of_bit` — what the check says of a pair that does not fit together
* `decoders_agree` — the verdicts, with their texts and their events
-/

namespace PackedBits.Bitmap

/-! ## One check -/

/-- A text that is read to its end is judged by the check alone. -/
theorem decodeText_eq_check {α : Type} {read : List Json.Token → Json.Attempt (α × List Json.Token)}
    (check : α → Logged (Except Mismatch α)) {text : List Char} {x : α}
    (hread : read (Json.tokens text) = .ok (x, [])) :
    decodeText read check text = (check x).map (·.mapError fun m => .json (.mismatch m)) := by
  rw [decodeText, hread]
  refine congrArg (Logged.map · (check x)) (funext fun verdict => ?_)
  cases verdict with
  | error m => rfl
  | ok y => rfl

/--
Every decoder of a form of the bitmap answers with the same verdict, worded for its form, and leaves
the events of that verdict.
-/
structure Judged (a : Bitmap) (verdict : Logged (Except Mismatch Bitmap)) : Prop where
  json : ofJson a.toJson = verdict.map (·.mapError fun m => .json (.mismatch m))
  jsonOption : optionOfJson (optionToJson (some a)) =
    verdict.map fun v => (v.map some).mapError fun m => .json (.mismatch m)
  binary : a.words.size < UInt64.size →
    ofBinary a.toBinary = verdict.map (·.mapError fun m => .binary (.mismatch m))
  binaryOption : a.words.size < UInt64.size →
    optionOfBinary (optionToBinary (some a)) =
      verdict.map fun v => (v.map some).mapError fun m => .binary (.mismatch m)

/-- All decoders agree with the check. -/
theorem judged_check (a : Bitmap) : a.Judged a.check where
  json := by
    have hread := record_jsonText a []
    rw [List.append_nil, Json.tokens_nil] at hread
    rw [ofJson, toJson, String.toList_ofList, decodeText_eq_check check hread]
  jsonOption := by
    have hread := optionalRecord_optionJsonText (some a) []
    rw [List.append_nil, Json.tokens_nil] at hread
    rw [optionOfJson, optionToJson, String.toList_ofList, decodeText_eq_check checkOption hread]
    rfl
  binary hsize := by
    have h := ofBinary_append_eq_check hsize []
    rwa [List.append_nil] at h
  binaryOption hsize := by
    have h := ofBinary_append_eq_check hsize []
    rw [List.append_nil] at h
    rw [optionToBinary, optionOfBinary_one_cons, h, Logged.map_map]
    refine congrArg (Logged.map · a.check) (funext fun verdict => ?_)
    cases verdict with
    | error m => rfl
    | ok x => rfl

/-- The number of words is looked at first. -/
theorem check_of_size_ne {a : Bitmap} (h : a.words.size ≠ (a.size.toNat + 63) / 64) :
    a.check = ⟨.error (.wordCount a.size ((a.size.toNat + 63) / 64) a.words.size),
      [.wordCountRejected a.size a.words.size]⟩ := by
  rw [← Word.toNat_countFor] at h ⊢
  have hmismatch : a.mismatch? =
      some (.wordCount a.size (Word.countFor a.size).toNat a.words.size) := if_pos h
  rw [check, hmismatch]
  rfl

/-- With the right number of words, any bit past the last flag counts. -/
theorem check_of_bit {a : Bitmap} (hsize : a.words.size = (a.size.toNat + 63) / 64) {p : Nat}
    (hp : a.size.toNat ≤ p) (hbit : a.bit p = true) :
    a.check = ⟨.error (.padding a.size), [.paddingRejected a.size]⟩ := by
  rw [← Word.toNat_countFor] at hsize
  have hpad : a.hasPadding = true := by
    cases hpad : a.hasPadding with
    | true => rfl
    | false =>
      rw [(hasPadding_eq_false_iff hsize).mp hpad p hp] at hbit
      cases hbit
  have hmismatch : a.mismatch? = some (.padding a.size) := by
    rw [mismatch?, if_neg (fun hne => hne hsize), if_pos hpad]
  rw [check, hmismatch]
  rfl

/--
**All decoders come to one verdict.**

A number of flags and some words, fitting together or not, are written as a JSON object or in the
binary form. If there are just enough words and no bit is set past the last flag, all decoders give
back these flags and words without an event. If the number of words is wrong, all of them say so,
with the number that is needed and the number that was found. If only a bit past the last flag is
set, all of them say that. A refusal has the same text in all of them, behind the words for the
form, and it leaves the same event, which is one for debugging. The texts and the records of the
events are spelled out, with the numbers in their places.
-/
theorem decoders_agree (a : Bitmap) :
    a.toJson = "\x7b\"bits\":" ++ toString a.size.toNat ++ ",\"elems\":[" ++
      ",".intercalate (a.words.toList.map fun w => toString w.toNat) ++ "]\x7d" ∧
    optionToJson (some a) = a.toJson ∧
    a.toBinary = Word.toBytes a.size ++ Word.toBytes (UInt64.ofNat a.words.size) ++
      a.words.toList.flatMap Word.toBytes ∧
    optionToBinary (some a) = 1 :: a.toBinary ∧
    (a.words.size = (a.size.toNat + 63) / 64 → (∀ p, a.size.toNat ≤ p → a.bit p = false) →
      a.Judged ⟨.ok a, []⟩) ∧
    (a.words.size ≠ (a.size.toNat + 63) / 64 →
      a.Judged ⟨.error (.wordCount a.size ((a.size.toNat + 63) / 64) a.words.size),
        [.wordCountRejected a.size a.words.size]⟩) ∧
    (a.words.size = (a.size.toNat + 63) / 64 → (∃ p, a.size.toNat ≤ p ∧ a.bit p = true) →
      a.Judged ⟨.error (.padding a.size), [.paddingRejected a.size]⟩) ∧
    (∀ m : Mismatch,
      (DecodeError.json (.mismatch m)).message = "JSON error: " ++ m.message ∧
      (DecodeError.binary (.mismatch m)).message = "Binary serialization error: " ++ m.message ∧
      m.event.level = .debug) ∧
    (∀ (bits : UInt64) (expected actual : Nat), (Mismatch.wordCount bits expected actual).message =
      "Invalid word count for " ++ toString bits.toNat ++ " bits: expected " ++ toString expected ++
        ", got " ++ toString actual) ∧
    (∀ bits : UInt64, (Mismatch.padding bits).message =
      "Padding bits set beyond bit count " ++ toString bits.toNat) ∧
    (∀ (bits : UInt64) (words : Nat), (Event.wordCountRejected bits words).render =
      "DEBUG syncbits::encoding rejecting bit array: " ++ toString bits.toNat ++ " bits with " ++
        toString words ++ " words") ∧
    (∀ bits : UInt64, (Event.paddingRejected bits).render =
      "DEBUG syncbits::encoding rejecting bit array: padding bits set past " ++
        toString bits.toNat) := by
  refine ⟨toJson_eq a, rfl, rfl, rfl, ?_, ?_, ?_, ?_, Mismatch.message_wordCount,
    Mismatch.message_padding, Event.render_wordCountRejected, Event.render_paddingRejected⟩
  · intro hsize hclear
    rw [← Word.toNat_countFor] at hsize
    rw [← check_of_wellFormed ⟨hsize, hclear⟩]
    exact judged_check a
  · intro hsize
    rw [← check_of_size_ne hsize]
    exact judged_check a
  · rintro hsize ⟨p, hp, hbit⟩
    rw [← check_of_bit hsize hp hbit]
    exact judged_check a
  · intro m
    refine ⟨?_, ?_, ?_⟩
    · rfl
    · rfl
    · cases m with
      | wordCount bits expected actual => rfl
      | padding bits => rfl

/-- As many flags as there can be and no word for them, and three flags with a bit past the last. -/
theorem decoders_agree_most :
    ofBinary (toBinary ⟨18446744073709551615, #[]⟩) =
      ⟨.error (.binary (.mismatch (.wordCount 18446744073709551615 288230376151711744 0))),
        [.wordCountRejected 18446744073709551615 0]⟩ ∧
    (Mismatch.wordCount 18446744073709551615 288230376151711744 0).message =
      "Invalid word count for 18446744073709551615 bits: expected 288230376151711744, got 0" ∧
    optionOfJson "\x7b\"bits\":3,\"elems\":[8]\x7d" =
      ⟨.error (.json (.mismatch (.padding 3))), [.paddingRejected 3]⟩ := by
  obtain ⟨-, -, -, -, -, hcount, -, -, hmessage, -⟩ := decoders_agree ⟨18446744073709551615, #[]⟩
  obtain ⟨hjson, hoption, -, -, -, -, hpadding, -⟩ := decoders_agree ⟨3, #[8]⟩
  refine ⟨(hcount (by decide)).binary (by decide), (hmessage _ _ _).trans (by decide), ?_⟩
  have h := (hpadding (by decide) ⟨3, by decide, by decide⟩).jsonOption
  rw [hoption, hjson] at h
  exact h

end PackedBits.Bitmap
