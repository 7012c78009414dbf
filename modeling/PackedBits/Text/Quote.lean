import PackedBits.Text.Combining
import PackedBits.Text.Invisible

/-!
# Text between quotes

A text is shown in a message between quotes, so that each character in it can be seen. A character
that does not show, or would join the one before it, is written by its number.
-/

namespace PackedBits.Text

/-- A character by its number, in hexadecimal. -/
def numbered (c : Char) : List Char := ['\\', 'u', '{'] ++ Nat.toDigits 16 c.toNat ++ ['}']

/--
A character inside a quoted text. The quote and the backslash are escaped, a few controls have an
escape by name, and all else that cannot be seen by itself is written by its number.
-/
def quoteChar (c : Char) : List Char :=
  if c = '"' ∨ c = '\\' then ['\\', c]
  else if c = '\n' then ['\\', 'n']
  else if c = '\r' then ['\\', 'r']
  else if c = '\t' then ['\\', 't']
  else if c.toNat = 0 then ['\\', '0']
  else if isCombining c || isInvisible c then numbered c
  else [c]

/-- A text between quotes. -/
def quote (s : List Char) : String := String.ofList (['"'] ++ s.flatMap quoteChar ++ ['"'])

end PackedBits.Text
