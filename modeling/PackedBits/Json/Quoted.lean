import PackedBits.Json.Input
import PackedBits.Json.Cause

/-!
# Quoted text

A text between quotes, in which a backslash starts an escape. A character beyond the first 65536 is
escaped as two surrogates, the greater half first; half a pair is refused.

Escapes by number take four bytes of text whatever they are, and only then are these looked at. This
shows where a bad one is reported.
-/

namespace PackedBits.Json.Quoted

/-- The value of a hexadecimal digit. -/
def hexValue (c : Char) : Option Nat :=
  if c.isDigit then some (c.toNat - '0'.toNat)
  else if 'a' ≤ c ∧ c ≤ 'f' then some (c.toNat - 'a'.toNat + 10)
  else if 'A' ≤ c ∧ c ≤ 'F' then some (c.toNat - 'A'.toNat + 10)
  else none

/-- The number that hexadecimal digits make. -/
def hexNumber (cs : List Char) : Option Nat :=
  cs.foldlM (fun n c => (hexValue c).map (16 * n + ·)) 0

/-- A number of four hexadecimal digits. -/
def codeUnit (cs : List Char) : Attempt (Nat × List Char) :=
  if bytesLeft (cs.take 4) < 4 then .error ⟨.endInString, 0⟩
  else
    match hexNumber (cs.take 4) with
    | none => .error ⟨.invalidEscape, bytesLeft cs - 4⟩
    | some n => .ok (n, cs.drop 4)

/-- Reads over a character that has to come next inside an escaped pair. -/
def pairMark (c : Char) : List Char → Attempt (List Char)
  | [] => .error ⟨.endInString, 0⟩
  | d :: cs => if d = c then .ok cs else .error ⟨.unfinishedSurrogate, bytesLeft (d :: cs) - 1⟩

/-- The second half of a pair, of which `high` is the first. -/
def lowHalf (high : Nat) (cs : List Char) : Attempt (Char × List Char) := do
  let cs ← pairMark '\\' cs
  let cs ← pairMark 'u' cs
  let (low, rest) ← codeUnit cs
  if 0xDC00 ≤ low ∧ low < 0xE000 then
    .ok (Char.ofNat (0x10000 + (high - 0xD800) * 0x400 + (low - 0xDC00)), rest)
  else .error ⟨.loneSurrogate, bytesLeft rest⟩

/-- A character escaped by number, behind the letter that says so. -/
def numbered (cs : List Char) : Attempt (Char × List Char) := do
  let (n, rest) ← codeUnit cs
  if 0xDC00 ≤ n ∧ n < 0xE000 then .error ⟨.loneSurrogate, bytesLeft rest⟩
  else if 0xD800 ≤ n ∧ n < 0xDC00 then lowHalf n rest
  else .ok (Char.ofNat n, rest)

/-- The characters that have an escape of their own. -/
def named (c : Char) : Option Char :=
  if c = '"' ∨ c = '\\' ∨ c = '/' then some c
  else if c = 'b' then some '\x08'
  else if c = 'f' then some '\x0c'
  else if c = 'n' then some '\n'
  else if c = 'r' then some '\r'
  else if c = 't' then some '\t'
  else none

/-- An escaped character, behind its backslash. -/
def escaped : List Char → Attempt (Char × List Char)
  | [] => .error ⟨.endInString, 0⟩
  | c :: cs =>
    match named c with
    | some e => .ok (e, cs)
    | none => if c = 'u' then numbered cs else .error ⟨.invalidEscape, bytesLeft (c :: cs) - 1⟩

/-! ## An escape takes up some text -/

theorem codeUnit_length {cs : List Char} {r : Nat × List Char} (h : codeUnit cs = .ok r) :
    r.2.length ≤ cs.length := by
  unfold codeUnit at h
  split at h
  · simp at h
  · split at h
    · simp at h
    · rw [← Except.ok.inj h]
      simp

theorem pairMark_length {c : Char} {cs r : List Char} (h : pairMark c cs = .ok r) :
    r.length ≤ cs.length := by
  unfold pairMark at h
  split at h
  · simp at h
  · split at h
    · rw [← Except.ok.inj h]
      exact Nat.le_succ _
    · simp at h

theorem lowHalf_length {high : Nat} {cs : List Char} {r : Char × List Char}
    (h : lowHalf high cs = .ok r) : r.2.length ≤ cs.length := by
  simp only [lowHalf, bind, Except.bind] at h
  split at h
  · simp at h
  · next cs₁ h₁ =>
    split at h
    · simp at h
    · next cs₂ h₂ =>
      split at h
      · simp at h
      · next p h₃ =>
        have l₁ := pairMark_length h₁
        have l₂ := pairMark_length h₂
        have l₃ := codeUnit_length h₃
        split at h
        · rw [← Except.ok.inj h]
          simp only
          omega
        · simp at h

theorem numbered_length {cs : List Char} {r : Char × List Char} (h : numbered cs = .ok r) :
    r.2.length ≤ cs.length := by
  simp only [numbered, bind, Except.bind] at h
  split at h
  · simp at h
  · next p hu =>
    have lu := codeUnit_length hu
    split at h
    · simp at h
    · split at h
      · exact Nat.le_trans (lowHalf_length h) lu
      · rw [← Except.ok.inj h]
        exact lu

theorem escaped_length {cs : List Char} {r : Char × List Char} (h : escaped cs = .ok r) :
    r.2.length ≤ cs.length := by
  unfold escaped at h
  split at h
  · simp at h
  · split at h
    · rw [← Except.ok.inj h]
      exact Nat.le_succ _
    · split at h
      · exact Nat.le_succ_of_le (numbered_length h)
      · simp at h

/-! ## Whole texts -/

/-- Puts a character in front of what is read behind it. -/
def consed (c : Char) (x : Attempt (List Char × List Char)) : Attempt (List Char × List Char) :=
  x.map fun (s, rest) => (c :: s, rest)

/-- A quoted text, behind its opening quote. -/
def read : List Char → Attempt (List Char × List Char)
  | [] => .error ⟨.endInString, 0⟩
  | c :: cs =>
    if c = '"' then .ok ([], cs)
    else if c = '\\' then
      match _h : escaped cs with
      | .error f => .error f
      | .ok (e, rest) => consed e (read rest)
    else if c.toNat < 0x20 then .error ⟨.controlCharacter, bytesLeft cs⟩
    else consed c (read cs)
termination_by cs => cs.length
decreasing_by
  · exact Nat.lt_succ_of_le (escaped_length _h)
  · exact Nat.lt_succ_self _

theorem consed_length {c : Char} {x : Attempt (List Char × List Char)} {n : Nat}
    (hx : ∀ r, x = .ok r → r.2.length < n) {r : List Char × List Char}
    (h : consed c x = .ok r) : r.2.length < n := by
  unfold consed at h
  cases x with
  | error f => simp [Except.map] at h
  | ok y =>
    rw [← Except.ok.inj h]
    exact hx y rfl

theorem read_length {cs : List Char} : ∀ {r : List Char × List Char}, read cs = .ok r →
    r.2.length < cs.length := by
  fun_induction read cs with
  | case1 => intro r h; simp at h
  | case2 cs =>
    intro r h
    rw [← Except.ok.inj h]
    exact Nat.lt_succ_self _
  | case3 cs f hf _ => intro r h; simp at h
  | case4 cs e rest he _ ih =>
    intro r h
    have hl := consed_length (fun r hr => ih hr) h
    exact Nat.lt_succ_of_le (Nat.le_trans (Nat.le_of_lt hl) (escaped_length he))
  | case5 c cs _ _ _ => intro r h; simp at h
  | case6 c cs _ _ _ ih =>
    intro r h
    exact Nat.lt_succ_of_lt (consed_length (fun r hr => ih hr) h)

end PackedBits.Json.Quoted
