/-!
# Text to be read

Places in a text are told by the number of bytes that are left there. A fault names such a place,
and only when it is reported is that turned into a line and a column. Bytes are those of the UTF-8
form.
-/

namespace PackedBits.Json

/-- Number of bytes of a text. -/
def bytesLeft : List Char → Nat
  | [] => 0
  | c :: cs => c.utf8Size + bytesLeft cs

/-- A line, counted from one, and the number of bytes before a place on that line. -/
structure Position where
  line : Nat
  column : Nat
  deriving DecidableEq

/-- The place in a text at which so many bytes are left. -/
def Position.within (text : List Char) (left : Nat) : Position :=
  let bytes := (text.flatMap String.utf8EncodeChar).take (bytesLeft text - left)
  ⟨1 + bytes.count 10, (bytes.reverse.takeWhile (· != 10)).length⟩

/-- The characters that may stand between lexemes. -/
def isBlank (c : Char) : Bool := c == ' ' || c == '\n' || c == '\t' || c == '\r'

/-- A text without its leading blanks. -/
def skipBlanks (text : List Char) : List Char := text.dropWhile isBlank

theorem skipBlanks_length (text : List Char) : (skipBlanks text).length ≤ text.length :=
  (List.dropWhile_sublist isBlank).length_le

end PackedBits.Json
