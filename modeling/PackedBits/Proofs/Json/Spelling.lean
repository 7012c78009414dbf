import PackedBits.Json.Quoted

/-!
# Ways to write a quoted text

Between quotes most characters stand for themselves, and every character can be escaped: some by a
letter, all of them by number, and those beyond the first 65536 by two numbers. So one text can be
written in many ways (`Spells`). All of them are read as that text.

Numbers of an escape are four hexadecimal digits in either case.

## Main statements

* `read_spelling` — one character, with anything behind it
* `read_spells` — a text up to its closing quote
* `read_unclosed` — a text without one
-/

namespace PackedBits.Json.Quoted

/-! ## Writing -/

/-- A character that stands for itself between quotes. -/
def isPlain (c : Char) : Bool := c != '"' && c != '\\' && 0x20 ≤ c.toNat

/-- Four hexadecimal digits that make a number. -/
structure IsCodeUnit (n : Nat) (ds : List Char) : Prop where
  length_eq : ds.length = 4
  hexNumber_eq : hexNumber ds = some n

/-- A way to write a character between quotes. -/
inductive Spelling : Char → List Char → Prop where
  | plain {c : Char} (hc : isPlain c) : Spelling c [c]
  | escape {c letter : Char} (hc : named letter = some c) : Spelling c ['\\', letter]
  | unit {c : Char} {ds : List Char} (hds : IsCodeUnit c.toNat ds) : Spelling c ('\\' :: 'u' :: ds)
  | pair {c : Char} {high low : Nat} {ds es : List Char} (hds : IsCodeUnit high ds)
      (hes : IsCodeUnit low es) (hhigh : 0xD800 ≤ high ∧ high < 0xDC00)
      (hlow : 0xDC00 ≤ low ∧ low < 0xE000)
      (hc : c.toNat = 0x10000 + (high - 0xD800) * 0x400 + (low - 0xDC00)) :
      Spelling c ('\\' :: 'u' :: (ds ++ '\\' :: 'u' :: es))

/-- A way to write a text between quotes. -/
inductive Spells : List Char → List Char → Prop where
  | nil : Spells [] []
  | cons {c : Char} {s t ts : List Char} (hc : Spelling c t) (h : Spells s ts) :
      Spells (c :: s) (t ++ ts)

/-- Plain characters need no escape. -/
theorem Spells.of_plain : ∀ s : List Char, s.all isPlain → Spells s s
  | [], _ => .nil
  | c :: s, h => by
    rw [List.all_cons, Bool.and_eq_true] at h
    exact .cons (.plain h.1) (of_plain s h.2)

/-! ## Reading -/

/-- A character takes at least one byte. -/
theorem length_le_bytesLeft (cs : List Char) : cs.length ≤ bytesLeft cs := by
  induction cs with
  | nil => exact Nat.le_refl 0
  | cons c cs ih =>
    have hc : 0 < c.utf8Size := c.utf8Size_pos
    rw [List.length_cons, bytesLeft]
    omega

theorem IsCodeUnit.codeUnit_append {n : Nat} {ds : List Char} (h : IsCodeUnit n ds)
    (rest : List Char) : codeUnit (ds ++ rest) = .ok (n, rest) := by
  have htake : (ds ++ rest).take 4 = ds := by
    rw [← h.length_eq, List.take_left]
  have hdrop : (ds ++ rest).drop 4 = rest := by
    rw [← h.length_eq, List.drop_left]
  have hbytes : 4 ≤ bytesLeft ds := h.length_eq ▸ length_le_bytesLeft ds
  rw [codeUnit, htake, hdrop, if_neg (by omega), h.hexNumber_eq]

/-- No character has the number of a surrogate. -/
theorem not_surrogate (c : Char) : c.toNat < 0xD800 ∨ 0xE000 ≤ c.toNat := by
  obtain hlow | ⟨hhigh, -⟩ := c.valid
  · exact .inl hlow
  · exact .inr hhigh

theorem named_u : named 'u' = none := by decide

theorem escaped_numbered (cs : List Char) : escaped ('u' :: cs) = numbered cs := by
  rw [escaped, named_u, if_pos rfl]

theorem numbered_unit {c : Char} {ds : List Char} (hds : IsCodeUnit c.toNat ds)
    (rest : List Char) : numbered (ds ++ rest) = .ok (c, rest) := by
  have hc := not_surrogate c
  rw [numbered, hds.codeUnit_append]
  show (if _ then _ else if _ then _ else _) = _
  rw [if_neg (by omega), if_neg (by omega), Char.ofNat_toNat]

theorem numbered_pair {c : Char} {high low : Nat} {ds es : List Char} (hds : IsCodeUnit high ds)
    (hes : IsCodeUnit low es) (hhigh : 0xD800 ≤ high ∧ high < 0xDC00)
    (hlow : 0xDC00 ≤ low ∧ low < 0xE000)
    (hc : c.toNat = 0x10000 + (high - 0xD800) * 0x400 + (low - 0xDC00)) (rest : List Char) :
    numbered (ds ++ '\\' :: 'u' :: (es ++ rest)) = .ok (c, rest) := by
  have hlowHalf : lowHalf high ('\\' :: 'u' :: (es ++ rest)) = .ok (c, rest) := by
    simp only [lowHalf, pairMark, bind, Except.bind, if_true, hes.codeUnit_append]
    rw [if_pos hlow, ← hc, Char.ofNat_toNat]
  rw [numbered, hds.codeUnit_append]
  show (if _ then _ else if _ then _ else _) = _
  rw [if_neg (by omega), if_pos hhigh, hlowHalf]

theorem read_escaped {c : Char} {cs rest : List Char} (h : escaped cs = .ok (c, rest)) :
    read ('\\' :: cs) = consed c (read rest) := by
  rw [read, if_neg (by decide), if_pos rfl]
  split
  · next herror =>
    rw [h] at herror
    cases herror
  · next hok =>
    rw [h] at hok
    cases hok
    rfl

/-- **A character is read however it is written.** -/
theorem read_spelling {c : Char} {t : List Char} (h : Spelling c t) (rest : List Char) :
    read (t ++ rest) = consed c (read rest) := by
  cases h with
  | plain hc =>
    simp only [isPlain, Bool.and_eq_true, bne_iff_ne, ne_eq, decide_eq_true_eq] at hc
    obtain ⟨⟨hquote, hslash⟩, hcontrol⟩ := hc
    rw [List.singleton_append, read, if_neg hquote, if_neg hslash, if_neg (by omega)]
  | @escape letter hc =>
    have hescaped : escaped (letter :: rest) = .ok (c, rest) := by
      rw [escaped, hc]
    exact read_escaped hescaped
  | unit hds => exact read_escaped ((escaped_numbered _).trans (numbered_unit hds rest))
  | pair hds hes hhigh hlow hc =>
    have hnumbered := numbered_pair hds hes hhigh hlow hc rest
    rw [List.cons_append, List.cons_append, List.append_assoc, List.cons_append, List.cons_append]
    exact read_escaped ((escaped_numbered _).trans hnumbered)

/-- **A text is read up to its closing quote, however it is written.** -/
theorem read_spells {s t : List Char} (h : Spells s t) (rest : List Char) :
    read (t ++ '"' :: rest) = .ok (s, rest) := by
  induction h with
  | nil => rw [List.nil_append, read, if_pos rfl]
  | cons hc _ ih =>
    rw [List.append_assoc, read_spelling hc, ih]
    rfl

/-- Without its closing quote a text goes on to the end. -/
theorem read_unclosed {s t : List Char} (h : Spells s t) : read t = .error ⟨.endInString, 0⟩ := by
  induction h with
  | nil => rw [read]
  | cons hc _ ih =>
    rw [read_spelling hc, ih]
    rfl

end PackedBits.Json.Quoted
