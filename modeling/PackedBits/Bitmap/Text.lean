import PackedBits.Bitmap.Basic

/-!
# Text forms

A bitmap is written as its number of flags and one character per flag, between braces. In the
indented form an indent follows every 10th flag and a second one every 50th, and the flags fall into
segments of 100 that are joined by another indent.

The segment ends before the indents of its last flag are written, so these open the next segment.
Put flat, each flag is followed by as many indents as 10, 50 and 100 divide its number (counting
from one): `flatBody` says so without any segment.

The two inspection forms show the words themselves.
-/

namespace PackedBits.Bitmap

/-! ## Flags -/

/-- The character of a flag. -/
def flagChar (v : Bool) : Char := if v then 'x' else '_'

/-- Finished segments, and the one that is being written. -/
structure Segments where
  finished : List (List Char) := []
  current : List Char := []

/-- Writes the flag of index `i`. -/
def Segments.write (indent : List Char) (s : Segments) (i : Nat) (v : Bool) : Segments :=
  let s := { s with current := s.current ++ [flagChar v] }
  let s := if i % 100 = 99 then ⟨s.finished ++ [s.current], []⟩ else s
  let s := if i % 10 = 9 then { s with current := s.current ++ indent } else s
  if i % 50 = 49 then { s with current := s.current ++ indent } else s

/-- All segments. One that nothing was written to does not count. -/
def Segments.all (s : Segments) : List (List Char) :=
  if s.current.isEmpty then s.finished else s.finished ++ [s.current]

/-- The flags with their indents, segment by segment. -/
def body (a : Bitmap) (indent : List Char) : List Char :=
  let written := (List.range a.size.toNat).foldl
    (fun s i => s.write indent i (a.test (UInt64.ofNat i))) (⟨[], []⟩ : Segments)
  List.intercalate indent written.all

/-- Number of indents after the flag of index `i`. -/
def indentCount (i : Nat) : Nat :=
  (if i % 10 = 9 then 1 else 0) + (if i % 50 = 49 then 1 else 0) + (if i % 100 = 99 then 1 else 0)

/-- The flags, each followed by its indents. -/
def flatBody (a : Bitmap) (indent : List Char) : List Char :=
  (List.range a.size.toNat).flatMap fun i =>
    flagChar (a.test (UInt64.ofNat i)) :: (List.replicate (indentCount i) indent).flatten

/-- The number of flags and a text of the flags, between braces. -/
def framed (a : Bitmap) (text : List Char) : List Char :=
  ['B', 'A', '{'] ++ Nat.toDigits 10 a.size.toNat ++ [':'] ++ text ++ ['}']

/-- The indented form. -/
def render (a : Bitmap) (indent : String) : String :=
  String.ofList (a.framed (a.body indent.toList))

/-! ## Words -/

/-- The words on one line. -/
def inspect (a : Bitmap) : String :=
  let words := ", ".intercalate (a.words.toList.map fun w => toString w.toNat)
  "BitArray \x7b bits: " ++ toString a.size.toNat ++ ", elems: [" ++ words ++ "] \x7d"

/-- The words, one to a line. -/
def inspectLines (a : Bitmap) : String :=
  let words := "".intercalate (a.words.toList.map fun w => "        " ++ toString w.toNat ++ ",\n")
  let list := if a.words.isEmpty then "[]" else "[\n" ++ words ++ "    ]"
  "BitArray \x7b\n    bits: " ++ toString a.size.toNat ++ ",\n    elems: " ++ list ++ ",\n\x7d"

end PackedBits.Bitmap
