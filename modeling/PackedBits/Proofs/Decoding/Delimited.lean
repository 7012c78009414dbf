import Mathlib.Data.List.TakeWhile
import PackedBits.Proofs.Json.Broken
import PackedBits.Proofs.Roundtrip.Json
import PackedBits.Proofs.Session.Reachable

/-!
# Forms that show their end

The JSON form says by itself where it ends. A text that breaks off before is refused, whatever it
would have gone on to say, and nothing is checked; in particular a number that is cut is not taken
for another one. A text that goes on behind the form is accepted only if there are just blanks.

## Main statements

* `record_of_cut`, `optionalRecord_of_cut` — a form that breaks off
* `ended_of_blank`, `ended_of_not_blank` — what comes behind a form
* `json_self_delimiting` — both for what a slot holds
-/

namespace PackedBits.Bitmap

open Json (tokens isBlank skipBlanks bytesLeft)

/-! ## Forms that break off -/

theorem record_of_cut {a : Bitmap} {text rest : List Char} (hrest : rest ≠ [])
    (h : text ++ rest = a.jsonText) :
    ∃ f, Json.record (tokens text) = .error f ∧ f.AtEnd := by
  rw [jsonText_eq_flatten] at h
  exact Json.record_of_breaksOff (.of_flatten hrest h)

theorem optionalRecord_of_cut {x : Option Bitmap} {text rest : List Char} (hrest : rest ≠ [])
    (h : text ++ rest = optionJsonText x) :
    ∃ f, Json.optionalRecord (tokens text) = .error f ∧ f.AtEnd := by
  cases x with
  | none => exact Json.optionalRecord_of_cut_null hrest h
  | some a =>
    rw [optionJsonText, jsonText_eq_flatten] at h
    exact Json.optionalRecord_of_breaksOff (.of_flatten hrest h)

/-! ## Texts behind a form -/

theorem ended_of_blank {α : Type} (text : List Char) {rest : List Char} (h : rest.all isBlank)
    (x : α) : ended text (tokens rest) x = .ok x := by
  have hskip : skipBlanks rest = [] := List.dropWhile_eq_nil_iff.mpr (List.all_eq_true.mp h)
  rw [Json.tokens_of_blank hskip, ended]

/-- The first character that is no blank is at fault. -/
theorem ended_of_not_blank {α : Type} (text : List Char) {rest : List Char}
    (h : rest.all isBlank = false) (x : α) :
    ended text (tokens rest) x =
      .error (faultIn text ⟨.trailingCharacters, bytesLeft (skipBlanks rest) - 1⟩) := by
  cases hskip : skipBlanks rest with
  | nil =>
    rw [List.all_eq_true.mpr (List.dropWhile_eq_nil_iff.mp hskip)] at h
    cases h
  | cons c cs =>
    rw [Json.tokens_of_skipBlanks hskip, ended]
    rfl

/--
A decoder takes a text for the form of a value just if the whole form is there and nothing but
blanks is behind it.
-/
structure SelfDelimiting {α : Type} (decode : String → Logged (Except DecodeError α))
    (form : String) (x : α) : Prop where
  truncated : ∀ text rest : String, rest ≠ "" → text ++ rest = form →
    ∃ cause : Json.Cause, cause.isEnd = true ∧
      decode text = ⟨.error (.json (.unread cause (.within text.toList 0))), []⟩
  blank : ∀ more : String, more.toList.all isBlank = true → decode (form ++ more) = ⟨.ok x, []⟩
  trailing : ∀ more : String, more.toList.all isBlank = false →
    decode (form ++ more) = ⟨.error (.json (.unread .trailingCharacters
      (.within (form ++ more).toList (bytesLeft (skipBlanks more.toList) - 1)))), []⟩

/-- A form that breaks off is refused before anything is checked. -/
theorem decodeText_of_cut {α : Type} {read : List Json.Token → Json.Attempt (α × List Json.Token)}
    {form : List Char} (check : α → Logged (Except Mismatch α))
    (h : ∀ text rest : List Char, rest ≠ [] → text ++ rest = form →
      ∃ f, read (tokens text) = .error f ∧ f.AtEnd)
    {text rest : String} (hrest : rest ≠ "") (hform : text ++ rest = String.ofList form) :
    ∃ cause : Json.Cause, cause.isEnd = true ∧
      decodeText read check text.toList =
        ⟨.error (.json (.unread cause (.within text.toList 0))), []⟩ := by
  have hcut : text.toList ++ rest.toList = form := by
    rw [← String.toList_append, hform, String.toList_ofList]
  have hne : rest.toList ≠ [] := fun h => hrest (String.toList_inj.mp h)
  obtain ⟨⟨cause, left⟩, hread, ⟨hend, rfl⟩⟩ := h _ _ hne hcut
  refine ⟨cause, hend, ?_⟩
  rw [decodeText, hread]
  rfl

theorem ofJson_selfDelimiting {a : Bitmap} (ha : a.WellFormed) :
    SelfDelimiting ofJson a.toJson a where
  truncated _ _ hrest htext := decodeText_of_cut check (fun _ _ => record_of_cut) hrest htext
  blank more hmore := by rw [ofJson_toJson_append ha, ended_of_blank _ hmore]
  trailing more hmore := by
    rw [ofJson_toJson_append ha, ended_of_not_blank _ hmore, toJson, String.toList_append,
      String.toList_ofList]
    rfl

theorem optionOfJson_selfDelimiting {x : Slot} (hx : x.WellFormed) :
    SelfDelimiting optionOfJson (optionToJson x) x where
  truncated _ _ hrest htext :=
    decodeText_of_cut checkOption (fun _ _ => optionalRecord_of_cut) hrest htext
  blank more hmore := by rw [optionOfJson_optionToJson_append hx, ended_of_blank _ hmore]
  trailing more hmore := by
    rw [optionOfJson_optionToJson_append hx, ended_of_not_blank _ hmore, optionToJson,
      String.toList_append, String.toList_ofList]
    rfl

end PackedBits.Bitmap

namespace PackedBits.Session

/--
**The JSON form shows where it ends.**

Whatever a slot of a reachable session holds, its JSON form with the choice of no bitmap is decoded
if nothing but blanks (spaces, tabs, line feeds and carriage returns) is behind it. If anything else
is, it is refused for trailing characters. If the form breaks off, it is refused for the end of the
text, before anything is checked, so without an event. The same holds for the form of a bitmap
without that choice. Both refusals have their texts, and the place of each of them.
-/
theorem json_self_delimiting {w : Session} (hw : Reachable w) (s : String) :
    Bitmap.SelfDelimiting Bitmap.optionOfJson (Bitmap.optionToJson (w.slot s)) (w.slot s) ∧
    (∀ a : Bitmap, w.slot s = some a → Bitmap.SelfDelimiting Bitmap.ofJson a.toJson a) ∧
    (∀ c : Char, Json.isBlank c = true ↔ c ∈ [' ', '\n', '\t', '\r']) ∧
    (∀ (cause : Json.Cause) (position : Json.Position), cause.isEnd = true → ∃ what,
      (DecodeError.json (.unread cause position)).message =
        "JSON error: EOF while parsing " ++ what) ∧
    (∀ position : Json.Position,
      (DecodeError.json (.unread .trailingCharacters position)).message =
        "JSON error: " ++ ("trailing characters" ++
          s!" at line {position.line} column {position.column}")) := by
  refine ⟨?_, ?_, ?_, ?_, ?_⟩
  · exact Bitmap.optionOfJson_selfDelimiting (hw.wellFormed s)
  · intro a ha
    exact Bitmap.ofJson_selfDelimiting (hw.wellFormed s a ha)
  · intro c
    simp only [Json.isBlank, List.mem_cons, List.not_mem_nil, or_false, Bool.or_eq_true,
      beq_iff_eq, or_assoc]
  · intro cause position hend
    obtain ⟨what, hwhat⟩ := Json.Cause.message_of_isEnd hend
    have hjoined : "JSON error: " ++ "EOF while parsing " = "JSON error: EOF while parsing " := by
      decide
    refine ⟨what ++ s!" at line {position.line} column {position.column}", ?_⟩
    rw [DecodeError.message_unread, hwhat, String.append_assoc, ← String.append_assoc, hjoined]
  · intro position
    exact DecodeError.message_unread .trailingCharacters position

/--
Seventy flags, cut inside of the number seventy, which leaves a seven, and cut before the last
brace; then blanks and other text behind both forms.
-/
theorem json_self_delimiting_seventy :
    ∃ w : Session, Reachable w ∧ ∃ a : Bitmap, w.slot "a" = some a ∧ w.slot "b" = none ∧
      a.toJson = "\x7b\"bits\":70,\"elems\":[8,0]\x7d" ∧
      (∃ cause position, cause.isEnd = true ∧
        Bitmap.ofJson "\x7b\"bits\":7" = ⟨.error (.json (.unread cause position)), []⟩) ∧
      (∃ cause position, cause.isEnd = true ∧
        Bitmap.optionOfJson "\x7b\"bits\":70,\"elems\":[8,0]" =
          ⟨.error (.json (.unread cause position)), []⟩) ∧
      Bitmap.optionOfJson "null \n" = ⟨.ok none, []⟩ ∧
      (∃ position, Bitmap.ofJson "\x7b\"bits\":70,\"elems\":[8,0]\x7d ,1" =
        ⟨.error (.json (.unread .trailingCharacters position)), []⟩) := by
  have hreach := Reachable.start.run [.create "a" 70, .set "a" 3 true]
  have ha : (start.run [.create "a" 70, .set "a" 3 true]).2.slot "a" =
      some ((Bitmap.zeroed 70).set 3 true).2 := rfl
  have hform : ((Bitmap.zeroed 70).set 3 true).2.toJson =
      "\x7b\"bits\":70,\"elems\":[8,0]\x7d" := by decide
  obtain ⟨hoption, hplain, -⟩ := json_self_delimiting hreach "a"
  obtain ⟨hnone, -⟩ := json_self_delimiting hreach "b"
  have hdelimited := hplain _ ha
  rw [ha] at hoption
  refine ⟨_, hreach, _, ha, rfl, hform, ?_, ?_, ?_, ?_⟩
  · have hcut : "\x7b\"bits\":7" ++ "0,\"elems\":[8,0]\x7d" =
        ((Bitmap.zeroed 70).set 3 true).2.toJson := by
      rw [hform]
      decide
    obtain ⟨cause, hend, herror⟩ := hdelimited.truncated _ _ (by decide) hcut
    exact ⟨cause, _, hend, herror⟩
  · obtain ⟨cause, hend, herror⟩ :=
      hoption.truncated "\x7b\"bits\":70,\"elems\":[8,0]" "\x7d" (by decide) hform.symm
    exact ⟨cause, _, hend, herror⟩
  · exact hnone.blank " \n" (by decide)
  · have herror := hdelimited.trailing " ,1" (by decide)
    rw [hform] at herror
    exact ⟨_, herror⟩

end PackedBits.Session
