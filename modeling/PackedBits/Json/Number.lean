import PackedBits.Json.Input
import PackedBits.Json.Cause

/-!
# Numbers

A number without fraction and exponent is an integer if it fits 64 bits, and every other number is
real. Its digits are gathered in a 64-bit significand. From the first digit on that does not fit,
digits before the point only raise the decimal exponent, and digits behind the point are dropped.

Digits are only counted once one of them had no room, so an integer is always exact.

## Main statements

* `read_length` — a number takes up some text
-/

namespace PackedBits.Json

/-- A number. The magnitude of a negative integer is between 1 and 2 to the 63rd. -/
inductive Number where
  | natural (n : UInt64)
  | negative (magnitude : Nat)
  | real (x : Float)

namespace Number

/-! ## Digits -/

/-- The value of a decimal digit. -/
def digitValue (c : Char) : Nat := c.toNat - '0'.toNat

/-- Whether a significand has room for one more digit. -/
def fits (g : Nat) (c : Char) : Bool := g * 10 + digitValue c < UInt64.size

/--
Digits before the point, after some that make `g`. The answer is the significand, the number of
digits that had no room in it, and the text behind.
-/
def wholeDigits (g : Nat) : List Char → Nat × Nat × List Char
  | [] => (g, 0, [])
  | c :: cs =>
    if !c.isDigit then (g, 0, c :: cs)
    else if fits g c then wholeDigits (g * 10 + digitValue c) cs
    else (g, ((c :: cs).takeWhile Char.isDigit).length, (c :: cs).dropWhile Char.isDigit)

/--
Digits behind the point. The answer is the significand, the number of digits it took in, and the
text behind them all.
-/
def fractionDigits (g : Nat) : List Char → Nat × Nat × List Char
  | [] => (g, 0, [])
  | c :: cs =>
    if !c.isDigit then (g, 0, c :: cs)
    else if fits g c then
      let (g', taken, rest) := fractionDigits (g * 10 + digitValue c) cs
      (g', taken + 1, rest)
    else (g, 0, (c :: cs).dropWhile Char.isDigit)

/-- No exponent reaches this, 2 to the 31st. -/
def exponentLimit : Nat := 0x80000000

/--
Digits of an exponent, after some that make `x`. Without an exponent in the answer, it is greater
than any that counts, and the text is that behind the digit that made it so.
-/
def exponentDigits (x : Nat) : List Char → Option Nat × List Char
  | [] => (some x, [])
  | c :: cs =>
    if !c.isDigit then (some x, c :: cs)
    else if x * 10 + digitValue c < exponentLimit then exponentDigits (x * 10 + digitValue c) cs
    else (none, cs)

/-! ## Values -/

/--
A number `f * 10 ^ e`, reached with at most one power of ten beyond the first steps of 308 places
each. Without an answer, it is too great.
-/
def scaled (f : Float) (e : Int) : Option Float :=
  if 308 < e then if f == 0 then some f else none
  else if e < -308 then if f == 0 then some f else scaled (f / 1e308) (e + 308)
  else if 0 ≤ e then
    let g := f * Float.ofScientific 1 false e.toNat
    if g.isInf then none else some g
  else some (f / Float.ofScientific 1 false (-e).toNat)
termination_by e.natAbs
decreasing_by omega

/-- Gives a number its sign. -/
def signed (negative : Bool) (f : Float) : Number := .real (if negative then -f else f)

/-- The real number of a significand and a decimal exponent. -/
def real? (negative : Bool) (g : Nat) (e : Int) (rest : List Char) : Attempt (Number × List Char) :=
  match scaled g.toUInt64.toFloat e with
  | none => .error ⟨.numberOutOfRange, bytesLeft rest⟩
  | some f => .ok (signed negative f, rest)

/-- The greatest magnitude of a negative integer, 2 to the 63rd. -/
def int64Limit : Nat := 0x8000000000000000

/-- The integer of a significand. Below minus 2 to the 63rd it is real, and so is minus zero. -/
def integer (negative : Bool) (g : Nat) : Number :=
  if !negative then .natural (UInt64.ofNat g)
  else if g = 0 ∨ int64Limit < g then signed true g.toUInt64.toFloat
  else .negative g

/-! ## Parts -/

/-- The digits of an exponent, which must not be missing. -/
def exponentValue (negative : Bool) (g : Nat) (e : Int) (down : Bool) : List Char → Attempt (Number × List Char)
  | [] => .error ⟨.endInValue, 0⟩
  | c :: cs =>
    if !c.isDigit then .error ⟨.invalidNumber, bytesLeft (c :: cs) - 1⟩
    else
      match exponentDigits (digitValue c) cs with
      | (some x, rest) => real? negative g (if down then e - x else e + x) rest
      | (none, rest) =>
        if g ≠ 0 ∧ !down then .error ⟨.numberOutOfRange, bytesLeft rest⟩
        else .ok (signed negative 0, rest.dropWhile Char.isDigit)

/-- An exponent, behind its letter. -/
def exponent (negative : Bool) (g : Nat) (e : Int) : List Char → Attempt (Number × List Char)
  | '+' :: cs => exponentValue negative g e false cs
  | '-' :: cs => exponentValue negative g e true cs
  | cs => exponentValue negative g e false cs

/-- The end of a number behind its fraction. -/
def afterFraction (negative : Bool) (g : Nat) (e : Int) : List Char → Attempt (Number × List Char)
  | 'e' :: cs => exponent negative g e cs
  | 'E' :: cs => exponent negative g e cs
  | cs => real? negative g e cs

/-- A fraction, behind its point. It must not be empty. -/
def fraction (negative : Bool) (g : Nat) (e : Int) : List Char → Attempt (Number × List Char)
  | [] => .error ⟨.endInValue, 0⟩
  | c :: cs =>
    if !c.isDigit then .error ⟨.invalidNumber, bytesLeft (c :: cs) - 1⟩
    else
      let (g', taken, rest) := fractionDigits g (c :: cs)
      afterFraction negative g' (e - taken) rest

/-- The end of a number behind its whole digits, of which `dropped` had no room. -/
def afterWhole (negative : Bool) (g dropped : Nat) : List Char → Attempt (Number × List Char)
  | '.' :: cs => fraction negative g dropped cs
  | 'e' :: cs => exponent negative g dropped cs
  | 'E' :: cs => exponent negative g dropped cs
  | cs => if dropped = 0 then .ok (integer negative g, cs) else real? negative g dropped cs

/-- A number, behind its sign. A leading zero stands alone. -/
def unsigned (negative : Bool) : List Char → Attempt (Number × List Char)
  | [] => .error ⟨.endInValue, 0⟩
  | c :: cs =>
    if !c.isDigit then .error ⟨.invalidNumber, bytesLeft (c :: cs) - 1⟩
    else if c = '0' then
      if cs.head?.any Char.isDigit then .error ⟨.invalidNumber, bytesLeft cs - 1⟩
      else afterWhole negative 0 0 cs
    else
      let (g, dropped, rest) := wholeDigits (digitValue c) cs
      afterWhole negative g dropped rest

/-- A number. -/
def read : List Char → Attempt (Number × List Char)
  | '-' :: cs => unsigned true cs
  | cs => unsigned false cs

/-! ## A number takes up some text -/

theorem wholeDigits_length (g : Nat) (cs : List Char) :
    (wholeDigits g cs).2.2.length ≤ cs.length := by
  fun_induction wholeDigits g cs with
  | case1 => exact Nat.le_refl _
  | case2 => exact Nat.le_refl _
  | case3 g c cs _ _ ih => exact Nat.le_succ_of_le ih
  | case4 g c cs _ _ => exact (List.dropWhile_sublist _).length_le

theorem fractionDigits_length (g : Nat) (cs : List Char) :
    (fractionDigits g cs).2.2.length ≤ cs.length := by
  fun_induction fractionDigits g cs with
  | case1 => exact Nat.le_refl _
  | case2 => exact Nat.le_refl _
  | case3 g c cs _ _ g' taken rest hr ih =>
    rw [hr] at ih
    exact Nat.le_succ_of_le ih
  | case4 g c cs _ _ => exact (List.dropWhile_sublist _).length_le

theorem exponentDigits_length (x : Nat) (cs : List Char) :
    (exponentDigits x cs).2.length ≤ cs.length := by
  fun_induction exponentDigits x cs with
  | case1 => exact Nat.le_refl _
  | case2 => exact Nat.le_refl _
  | case3 x c cs _ _ ih => exact Nat.le_succ_of_le ih
  | case4 x c cs _ _ => exact Nat.le_succ _

theorem real?_length {negative : Bool} {g : Nat} {e : Int} {rest : List Char}
    {r : Number × List Char} (h : real? negative g e rest = .ok r) : r.2 = rest := by
  unfold real? at h
  split at h
  · simp at h
  · rw [← Except.ok.inj h]

theorem exponentValue_length {negative : Bool} {g : Nat} {e : Int} {down : Bool}
    {cs : List Char} {r : Number × List Char}
    (h : exponentValue negative g e down cs = .ok r) : r.2.length ≤ cs.length := by
  unfold exponentValue at h
  split at h
  · simp at h
  · next c cs =>
    split at h
    · simp at h
    · have hx := exponentDigits_length (digitValue c) cs
      split at h
      · next x rest hd =>
        rw [hd] at hx
        rw [real?_length h]
        exact Nat.le_succ_of_le hx
      · next rest hd =>
        rw [hd] at hx
        split at h
        · simp at h
        · rw [← Except.ok.inj h]
          have := (List.dropWhile_sublist Char.isDigit (l := rest)).length_le
          simp only [List.length_cons] at hx ⊢
          omega

theorem exponent_length {negative : Bool} {g : Nat} {e : Int} {cs : List Char}
    {r : Number × List Char} (h : exponent negative g e cs = .ok r) :
    r.2.length ≤ cs.length := by
  unfold exponent at h
  split at h
  · exact Nat.le_succ_of_le (exponentValue_length h)
  · exact Nat.le_succ_of_le (exponentValue_length h)
  · exact exponentValue_length h

theorem afterFraction_length {negative : Bool} {g : Nat} {e : Int} {cs : List Char}
    {r : Number × List Char} (h : afterFraction negative g e cs = .ok r) :
    r.2.length ≤ cs.length := by
  unfold afterFraction at h
  split at h
  · exact Nat.le_succ_of_le (exponent_length h)
  · exact Nat.le_succ_of_le (exponent_length h)
  · exact Nat.le_of_eq (congrArg List.length (real?_length h))

theorem fraction_length {negative : Bool} {g : Nat} {e : Int} {cs : List Char}
    {r : Number × List Char} (h : fraction negative g e cs = .ok r) :
    r.2.length ≤ cs.length := by
  unfold fraction at h
  split at h
  · simp at h
  · next c cs =>
    split at h
    · simp at h
    · exact Nat.le_trans (afterFraction_length h) (fractionDigits_length g (c :: cs))

theorem afterWhole_length {negative : Bool} {g dropped : Nat} {cs : List Char}
    {r : Number × List Char} (h : afterWhole negative g dropped cs = .ok r) :
    r.2.length ≤ cs.length := by
  unfold afterWhole at h
  split at h
  · exact Nat.le_succ_of_le (fraction_length h)
  · exact Nat.le_succ_of_le (exponent_length h)
  · exact Nat.le_succ_of_le (exponent_length h)
  · split at h
    · cases h
      exact Nat.le_refl _
    · exact Nat.le_of_eq (congrArg List.length (real?_length h))

theorem unsigned_length {negative : Bool} {cs : List Char} {r : Number × List Char}
    (h : unsigned negative cs = .ok r) : r.2.length < cs.length := by
  unfold unsigned at h
  split at h
  · simp at h
  · next c cs =>
    split at h
    · simp at h
    · split at h
      · split at h
        · simp at h
        · exact Nat.lt_succ_of_le (afterWhole_length h)
      · exact Nat.lt_succ_of_le
          (Nat.le_trans (afterWhole_length h) (wholeDigits_length (digitValue c) cs))

theorem read_length {cs : List Char} {r : Number × List Char} (h : read cs = .ok r) :
    r.2.length < cs.length := by
  unfold read at h
  split at h
  · exact Nat.lt_succ_of_lt (unsigned_length h)
  · exact unsigned_length h

end Number

end PackedBits.Json
