import PackedBits.Error
import PackedBits.Json.Record

/-!
# The JSON form

A bitmap is written as an object with the number of flags and the list of words, without blanks, and
the absence of one as `null`. Reading is more generous: it admits blanks, the fields in any order,
and the list form.

What was read is checked before the text behind it is looked at, so a mismatch counts for more than
something that follows.
-/

namespace PackedBits.Bitmap

/-! ## Writing -/

/-- A number in decimal digits. -/
def digits (n : UInt64) : List Char := Nat.toDigits 10 n.toNat

/-- The key of a field, with the colon behind it. -/
def keyText (field : Json.Field) : List Char := ['"'] ++ field.key ++ ['"', ':']

/-- A list of words. -/
def wordsText : List Word → List Char
  | [] => ['[', ']']
  | w :: ws => ['['] ++ digits w ++ ws.flatMap (fun w => ',' :: digits w) ++ [']']

/-- The characters of the JSON form. -/
def jsonText (a : Bitmap) : List Char :=
  ['{'] ++ keyText .bits ++ digits a.size ++ [','] ++ keyText .elems ++ wordsText a.words.toList ++
    ['}']

/-- The characters of the JSON form where there may be no bitmap. -/
def optionJsonText : Option Bitmap → List Char
  | none => ['n', 'u', 'l', 'l']
  | some a => a.jsonText

/-- The JSON form of a bitmap. -/
def toJson (a : Bitmap) : String := String.ofList a.jsonText

/-- The JSON form where there may be no bitmap. -/
def optionToJson (a : Option Bitmap) : String := String.ofList (optionJsonText a)

/-! ## Reading -/

/-- A fault in a text, with its place turned into a line and a column. -/
def faultIn (text : List Char) (f : Json.Fault) : DecodeError :=
  .json (.unread f.cause (.within text f.left))

/-- What was read, unless something comes behind it. -/
def ended {α : Type} (text : List Char) (rest : List Json.Token) (x : α) : Except DecodeError α :=
  match rest with
  | [] => .ok x
  | t :: _ => .error (faultIn text ⟨.trailingCharacters, t.glance⟩)

/-- Reads a whole text, and checks what it says. -/
def decodeText {α : Type} (read : List Json.Token → Json.Attempt (α × List Json.Token))
    (check : α → Logged (Except Mismatch α)) (text : List Char) : Logged (Except DecodeError α) :=
  match read (Json.tokens text) with
  | .error f => ⟨.error (faultIn text f), []⟩
  | .ok (x, rest) =>
    (check x).map fun
      | .error m => .error (.json (.mismatch m))
      | .ok x => ended text rest x

/-- The bitmap of a text in JSON. -/
def ofJson (text : String) : Logged (Except DecodeError Bitmap) :=
  decodeText Json.record check text.toList

/-- The bitmap of a text in JSON, or none if it says so. -/
def optionOfJson (text : String) : Logged (Except DecodeError (Option Bitmap)) :=
  decodeText Json.optionalRecord checkOption text.toList

end PackedBits.Bitmap
