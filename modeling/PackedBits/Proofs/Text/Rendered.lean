import PackedBits.Session
import PackedBits.Proofs.Text.Flat

/-!
# The text as it is read

The text of a bitmap, put together from strings instead of characters and without any segment: the
header, then flag by flag the character and the indents that follow it, then the closing brace. The
last flag is followed by its indents like any other, so a text of ten flags has one in front of the
brace, a text of fifty has two and a text of a hundred has three.

## Main statements

* `toList_flagString` — a flag as a string is a flag as characters
* `render_eq_flat` — the text of a bitmap
* `render_flag_by_flag` — the same for the commands of a session
-/

namespace PackedBits

namespace Bitmap

/-- The character of a flag and the indents behind it. -/
def flagString (indent : String) (i : Nat) (v : Bool) : String :=
  (if v then "x" else "_") ++ String.join (List.replicate (indentCount i) indent)

theorem toList_flagString (indent : String) (i : Nat) (v : Bool) :
    (flagString indent i v).toList = flagText indent.toList i v := by
  have hindents : (String.join (List.replicate (indentCount i) indent)).toList =
      (List.replicate (indentCount i) indent.toList).flatten := by
    rw [String.toList_join, List.flatMap_replicate]
  have hchar : (if v then "x" else "_").toList = [flagChar v] := by
    cases v with
    | false => rfl
    | true => rfl
  rw [flagString, String.toList_append, hindents, hchar]
  rfl

/-- Without an indent there is nothing behind the character. -/
theorem flagString_empty (i : Nat) (v : Bool) : flagString "" i v = if v then "x" else "_" := by
  have hindents : String.join (List.replicate (indentCount i) "") = "" := by
    apply String.toList_inj.mp
    simp [String.toList_join]
  rw [flagString, hindents, String.append_empty]

/-- The text of a bitmap is its header, its flags one by one, and a brace. -/
theorem render_eq_flat (a : Bitmap) (indent : String) :
    a.render indent =
      "BA\x7b" ++ toString a.size.toNat ++ ":" ++
        String.join ((List.range a.size.toNat).map fun i =>
          flagString indent i (a.test (UInt64.ofNat i))) ++ "\x7d" := by
  have hflags : (String.join ((List.range a.size.toNat).map fun i =>
      flagString indent i (a.test (UInt64.ofNat i)))).toList = a.flatBody indent.toList := by
    rw [String.toList_join, List.flatMap_map]
    simp only [toList_flagString]
    rfl
  apply String.toList_inj.mp
  rw [render, framed, body_eq_flatBody]
  simp only [String.toList_append, hflags, Nat.toString_eq_ofList_toDigits, String.toList_ofList]
  rfl

end Bitmap

namespace Session

/--
**The text of a bitmap can be read off flag by flag.**

A session that is asked for the indented text of a bitmap, with any indent, replies with the number
of flags and then for each flag an `x` or a `_` and as many indents as the number of the flag,
counted from one, is a multiple of 10, of 50 and of 100. This holds of the last flag as well.
Without an indent the text is the flags alone.
-/
theorem render_flag_by_flag {w : Session} {s : String} {a : Bitmap} (ha : w.slot s = some a) :
    (∀ indent : String, w.step (.render s indent) =
      (.plain (.text ("BA\x7b" ++ toString a.size.toNat ++ ":" ++
        String.join ((List.range a.size.toNat).map fun i =>
          (if a.test (UInt64.ofNat i) then "x" else "_") ++
            String.join (List.replicate
              ((if i % 10 = 9 then 1 else 0) + (if i % 50 = 49 then 1 else 0) +
                (if i % 100 = 99 then 1 else 0)) indent)) ++ "\x7d")), w)) ∧
    w.step (.display s) =
      (.plain (.text ("BA\x7b" ++ toString a.size.toNat ++ ":" ++
        String.join ((List.range a.size.toNat).map fun i =>
          if a.test (UInt64.ofNat i) then "x" else "_") ++ "\x7d")), w) := by
  constructor
  · intro indent
    have htext := a.render_eq_flat indent
    simp only [Bitmap.flagString, Bitmap.indentCount] at htext
    rw [← htext]
    simp only [step, ha, Slot.render, ask, Option.elim_some]
  · have htext := a.render_eq_flat ""
    simp only [Bitmap.flagString_empty] at htext
    rw [← htext]
    simp only [step, ha, askPresent, ask, Option.elim_some]

/-- Fifty flags, the last of them set. -/
theorem render_flag_by_flag_fifty :
    ∃ (w : Session) (a : Bitmap), w.slot "s" = some a ∧
      w.step (.render "s" "|") = (.plain (.text
        "BA\x7b50:__________|__________|__________|__________|_________x||\x7d"), w) := by
  refine ⟨(start.run [.create "s" 50, .set "s" 49 true]).2, _, rfl, ?_⟩
  rw [(render_flag_by_flag rfl).1]
  exact congrArg (fun text => (Response.plain (.text text), _)) (by decide)

end Session

end PackedBits
