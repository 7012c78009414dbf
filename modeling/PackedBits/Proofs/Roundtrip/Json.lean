import PackedBits.Session
import PackedBits.Proofs.Json.Layout

/-!
# The JSON form is read back

What is written in JSON is one of the ways to set out a bitmap, so it is read as what it was written
from, whatever comes behind it. That what was read passes the check is known from the bitmap itself.

## Main statements

* `toJson_eq` — the form, in terms of texts
* `jsonText_eq_flatten` — the form is set out as an object without blanks
* `record_jsonText`, `optionalRecord_optionJsonText` — it is read back, with any text behind it
* `ofJson_toJson_append`, `optionOfJson_optionToJson_append` — a form that passes the check is
  accepted, unless the text behind it is at fault
* `ofJson_inverts_toJson` — so a form alone is read back, and nothing is logged
-/

namespace PackedBits.Bitmap

open Json (Layout tokens)

/-! ## Layout -/

theorem flatten_morePieces (ws : List Word) :
    (Json.morePieces (ws.map UInt64.toNat)).flatten = ws.flatMap fun w => ',' :: digits w := by
  induction ws with
  | nil => rfl
  | cons w ws ih =>
    rw [List.map_cons, Json.morePieces, List.flatMap_cons, ← Json.morePieces, List.flatten_append,
      ih]
    simp [digits]

theorem wordsText_eq_flatten (ws : List Word) :
    wordsText ws = (Json.listPieces (ws.map UInt64.toNat)).flatten := by
  cases ws with
  | nil => rfl
  | cons w ws =>
    rw [List.map_cons, Json.listPieces_cons]
    simp [flatten_morePieces, wordsText, digits]

theorem wordsText_eq (ws : List Word) :
    wordsText ws = '[' :: ([','].intercalate (ws.map digits) ++ [']']) := by
  rw [wordsText_eq_flatten, Json.listPieces, List.map_map, List.flatten_cons, List.flatten_append]
  rfl

/-- An object without blanks, with numbers in decimal digits and commas between the words. -/
theorem toJson_eq (a : Bitmap) :
    a.toJson = "\x7b\"bits\":" ++ toString a.size.toNat ++ ",\"elems\":[" ++
      ",".intercalate (a.words.toList.map fun w => toString w.toNat) ++ "]\x7d" := by
  have hdigits : (String.toList ∘ fun w : Word => toString w.toNat) = digits := by
    funext w
    simp [digits]
  apply String.toList_inj.mp
  rw [toJson, String.toList_ofList, jsonText, wordsText_eq]
  simp only [String.toList_append, String.toList_intercalate, List.map_map, hdigits]
  simp [keyText, Json.Field.key, digits]

/-- The form is set out as an object without blanks. -/
theorem jsonText_eq_flatten (a : Bitmap) :
    a.jsonText = ((Layout.object .bits).pieces a.size.toNat
      (a.words.toList.map UInt64.toNat)).flatten := by
  rw [jsonText, wordsText_eq_flatten]
  simp [Layout.pieces, Json.memberPieces, Json.keyPieces, Json.valuePieces, Json.Field.other,
    keyText, digits]

theorem spaced_jsonText (a : Bitmap) (rest : List Char) :
    Json.Spaced rest ((Layout.object .bits).pieces a.size.toNat (a.words.toList.map UInt64.toNat))
      (a.jsonText ++ rest) := by
  rw [jsonText_eq_flatten]
  exact .of_flatten _ rest

/-- All numbers of a bitmap fit. -/
theorem pair?_toNat (a : Bitmap) :
    Json.pair? a.size.toNat (a.words.toList.map UInt64.toNat) = some a := by
  rw [Json.pair?, Json.word?_toNat, Json.mapM_word?_toNat]
  rfl

/-! ## Whole forms -/

/-- **A form is read back, whatever comes behind it.** -/
theorem record_jsonText (a : Bitmap) (rest : List Char) :
    Json.record (tokens (a.jsonText ++ rest)) = .ok (a, tokens rest) := by
  have hreads := Json.reads_record (spaced_jsonText a rest)
  rw [pair?_toNat] at hreads
  obtain ⟨last, hlast, hread⟩ := hreads
  rw [hread, Json.tokens_of_spaced hlast]

/-- The same where there may be no bitmap. -/
theorem optionalRecord_optionJsonText (x : Option Bitmap) (rest : List Char) :
    Json.optionalRecord (tokens (optionJsonText x ++ rest)) = .ok (x, tokens rest) := by
  cases x with
  | none =>
    simp only [optionJsonText, List.cons_append, List.nil_append, Json.tokens_null]
    rfl
  | some a =>
    have hrecord := record_jsonText a rest
    -- the brace in front is not `null`
    obtain ⟨t, behind, ht, -, htext⟩ := (spaced_jsonText a rest).mark Json.mark_openBrace
    rw [optionJsonText]
    rw [htext] at hrecord ⊢
    rw [Json.optionalRecord_cons (by simp [ht]), hrecord]
    rfl

/-! ## Reading back -/

theorem checkOption_of_wellFormed {x : Slot} (hx : x.WellFormed) :
    checkOption x = ⟨.ok x, []⟩ := by
  cases x with
  | none => rfl
  | some a =>
    rw [checkOption, check_of_wellFormed (Slot.wellFormed_some.mp hx)]
    rfl

/-- With a text behind the form, only that text decides. -/
theorem ofJson_toJson_append {a : Bitmap} (ha : a.WellFormed) (text : String) :
    ofJson (a.toJson ++ text) =
      ⟨ended (a.jsonText ++ text.toList) (tokens text.toList) a, []⟩ := by
  have hread := record_jsonText a text.toList
  rw [ofJson, toJson, String.toList_append, String.toList_ofList, decodeText, hread]
  simp only [check_of_wellFormed ha]
  rfl

theorem optionOfJson_optionToJson_append {x : Slot} (hx : x.WellFormed) (text : String) :
    optionOfJson (optionToJson x ++ text) =
      ⟨ended (optionJsonText x ++ text.toList) (tokens text.toList) x, []⟩ := by
  have hread := optionalRecord_optionJsonText x text.toList
  rw [optionOfJson, optionToJson, String.toList_append, String.toList_ofList, decodeText, hread]
  simp only [checkOption_of_wellFormed hx]
  rfl

/-- Different contents of a slot are written differently. -/
theorem optionToJson_injective {x y : Slot} (h : optionToJson x = optionToJson y) : x = y := by
  have htext : optionJsonText x = optionJsonText y := String.ofList_injective h
  have hx := optionalRecord_optionJsonText x []
  rw [htext, optionalRecord_optionJsonText y []] at hx
  exact (Prod.mk.inj (Except.ok.inj hx)).1.symm

/--
**The JSON form is read back.**

The form is an object with the number of flags and the list of words in decimal digits, or `null`
where there is no bitmap. A well-formed bitmap comes back from it with the same number of flags and
the same words, and nothing is logged. So does what a slot holds, and different contents have
different forms: no bitmap is not taken for a bitmap without flags.
-/
theorem ofJson_inverts_toJson :
    (∀ a : Bitmap, a.toJson = "\x7b\"bits\":" ++ toString a.size.toNat ++ ",\"elems\":[" ++
      ",".intercalate (a.words.toList.map fun w => toString w.toNat) ++ "]\x7d") ∧
    (∀ x : Slot, optionToJson x = x.elim "null" toJson) ∧
    (∀ a : Bitmap, a.WellFormed → ofJson a.toJson = ⟨.ok a, []⟩) ∧
    (∀ x : Slot, x.WellFormed → optionOfJson (optionToJson x) = ⟨.ok x, []⟩) ∧
    (∀ x y : Slot, optionToJson x = optionToJson y → x = y) := by
  refine ⟨?_, ?_, ?_, ?_, ?_⟩
  · intro a
    exact toJson_eq a
  · intro x
    cases x with
    | none => rfl
    | some a => rfl
  · intro a ha
    have h := ofJson_toJson_append ha ""
    rw [String.append_empty, String.toList_empty, Json.tokens_nil] at h
    exact h
  · intro x hx
    have h := optionOfJson_optionToJson_append hx ""
    rw [String.append_empty, String.toList_empty, Json.tokens_nil] at h
    exact h
  · intro x y h
    exact optionToJson_injective h

/-- Sixty-four flags, all of them set, and the two slots that are alike but for their form. -/
theorem ofJson_inverts_toJson_full :
    ofJson "\x7b\"bits\":64,\"elems\":[18446744073709551615]\x7d" =
      ⟨.ok ⟨64, #[0xFFFFFFFFFFFFFFFF]⟩, []⟩ ∧
    optionOfJson "\x7b\"bits\":0,\"elems\":[]\x7d" = ⟨.ok (some empty), []⟩ ∧
    optionOfJson "null" = ⟨.ok none, []⟩ ∧
    optionToJson (some empty) ≠ optionToJson none := by
  have hwf : (⟨64, #[0xFFFFFFFFFFFFFFFF]⟩ : Bitmap).WellFormed :=
    (mismatch?_eq_none_iff _).mp (by decide)
  obtain ⟨-, hoption, hplain, hslot, hdistinct⟩ := ofJson_inverts_toJson
  have hform : (⟨64, #[0xFFFFFFFFFFFFFFFF]⟩ : Bitmap).toJson =
      "\x7b\"bits\":64,\"elems\":[18446744073709551615]\x7d" := by decide
  have hempty : optionToJson (some empty) = "\x7b\"bits\":0,\"elems\":[]\x7d" := by decide
  have hnone : optionToJson none = "null" := hoption none
  refine ⟨?_, ?_, ?_, ?_⟩
  · rw [← hform]
    exact hplain _ hwf
  · rw [← hempty]
    exact hslot _ (Slot.wellFormed_some.mpr (zeroed_wellFormed 0))
  · rw [← hnone]
    exact hslot _ Slot.wellFormed_none
  · intro h
    cases hdistinct _ _ h

end PackedBits.Bitmap
