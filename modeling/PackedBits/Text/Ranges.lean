/-!
# Ranges of characters

A class of characters is given by closed ranges of code points. They are in ascending order, so a
look-up goes along them and stops at the first that starts beyond the character it looks for. The
classes in this library are those of Unicode 17.0.
-/

namespace PackedBits.Text

/-- Closed ranges of code points, each with its first and its last one. -/
abbrev Ranges : Type := List (Nat × Nat)

namespace Ranges

/-- Whether a code point is in one of the ranges, which are in order. -/
def covers : Ranges → Nat → Bool
  | [], _ => false
  | (first, last) :: rest, n => decide (first ≤ n) && (decide (n ≤ last) || covers rest n)

end Ranges

end PackedBits.Text
