import PackedBits.Text.Unassigned

/-!
# Characters that do not show

A character has no sign of its own if it controls or formats what stands around it, if it separates
words, lines or paragraphs, if it fills the place of a letter, or if no meaning is agreed on for it.
The plain space counts as visible.
-/

namespace PackedBits.Text

/-! ## Tables -/

/-- The controls. -/
def controlRanges : Ranges :=
  [(0x00, 0x1F), (0x7F, 0x9F)]

/-- The characters that tell how others are laid out. -/
def formatRanges : Ranges :=
  [(0xAD, 0xAD), (0x0600, 0x0605), (0x061C, 0x061C), (0x06DD, 0x06DD), (0x070F, 0x070F),
   (0x0890, 0x0891), (0x08E2, 0x08E2), (0x180E, 0x180E), (0x200B, 0x200F), (0x202A, 0x202E),
   (0x2060, 0x2064), (0x2066, 0x206F), (0xFEFF, 0xFEFF), (0xFFF9, 0xFFFB), (0x110BD, 0x110BD),
   (0x110CD, 0x110CD), (0x13430, 0x1343F), (0x1BCA0, 0x1BCA3), (0x1D173, 0x1D17A),
   (0xE0001, 0xE0001), (0xE0020, 0xE007F)]

/-- The separators of words, lines and paragraphs, apart from the space. -/
def separatorRanges : Ranges :=
  [(0xA0, 0xA0), (0x1680, 0x1680), (0x2000, 0x200A), (0x2028, 0x2029), (0x202F, 0x202F),
   (0x205F, 0x205F), (0x3000, 0x3000)]

/-- The letters that stand in a syllable for a missing one. -/
def fillerRanges : Ranges :=
  [(0x115F, 0x1160), (0x3164, 0x3164), (0xFFA0, 0xFFA0)]

/-- The characters whose meaning is a private matter. -/
def privateRanges : Ranges :=
  [(0xE000, 0xF8FF), (0xF0000, 0xFFFFD), (0x100000, 0x10FFFD)]

/-! ## Look-up -/

/-- Whether a character has no sign of its own. -/
def isInvisible (c : Char) : Bool :=
  controlRanges.covers c.toNat || formatRanges.covers c.toNat || separatorRanges.covers c.toNat ||
    fillerRanges.covers c.toNat || privateRanges.covers c.toNat || isUnassigned c

end PackedBits.Text
