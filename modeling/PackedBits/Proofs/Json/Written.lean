import PackedBits.Bitmap.Json
import PackedBits.Proofs.Json.Spelling

/-!
# The lexemes of what is written

How a text is cut up where it was put together from lexemes: the marks, numbers in decimal digits,
and quoted texts. Each of these is read back as the lexeme it stands for, and the text behind it is
cut up on its own.

A mark ends where it ends, whatever comes next. A number does not: a digit, a point or an exponent
behind it would carry it on (`Number.EndsBefore`).

## Main statements

* `Number.read_toDigits` — decimal digits are read as the number they were made from
* `Number.read_toDigits_overflow` — unless it does not fit, and then they are not read as an integer
* `tokens_mark`, `tokens_quoted`, `tokens_number`, `tokens_toDigits` — all of them as lexemes
-/

namespace PackedBits.Json

/-! ## Numbers -/

namespace Number

/-- Whether a number goes on with a character. -/
def carriesOn (c : Char) : Bool := c.isDigit || c == '.' || c == 'e' || c == 'E'

/-- What is behind a number does not carry it on. -/
def EndsBefore (rest : List Char) : Prop := ∀ c ∈ rest.head?, carriesOn c = false

theorem endsBefore_cons {c : Char} (hc : carriesOn c = false) (cs : List Char) :
    EndsBefore (c :: cs) := by
  intro d hd
  cases hd
  exact hc

theorem EndsBefore.isDigit_eq_false {c : Char} {cs : List Char} (h : EndsBefore (c :: cs)) :
    c.isDigit = false := by
  have hc : carriesOn c = false := h c rfl
  simp only [carriesOn, Bool.or_eq_false_iff] at hc
  exact hc.1.1.1

theorem EndsBefore.ne {c : Char} {cs : List Char} (h : EndsBefore (c :: cs)) :
    c ≠ '.' ∧ c ≠ 'e' ∧ c ≠ 'E' := by
  have hc : carriesOn c = false := h c rfl
  simp only [carriesOn, Bool.or_eq_false_iff, beq_eq_false_iff_ne, ne_eq] at hc
  exact ⟨hc.1.1.2, hc.1.2, hc.2⟩

theorem EndsBefore.head?_isDigit {rest : List Char} (h : EndsBefore rest) :
    rest.head?.any Char.isDigit = false := by
  cases rest with
  | nil => rfl
  | cons c cs => exact h.isDigit_eq_false

/-- More digits do not make a number smaller. -/
theorem le_ofDigitChars (ds : List Char) (g : Nat) : g ≤ Nat.ofDigitChars 10 ds g := by
  rw [Nat.ofDigitChars_eq_ofDigitChars_zero]
  exact Nat.le_trans (Nat.le_mul_of_pos_left g (Nat.pow_pos (by omega))) (Nat.le_add_right _ _)

theorem ofDigitChars_cons_ten (c : Char) (ds : List Char) (g : Nat) :
    Nat.ofDigitChars 10 (c :: ds) g = Nat.ofDigitChars 10 ds (g * 10 + digitValue c) := by
  rw [Nat.ofDigitChars_cons, Nat.mul_comm]
  rfl

/-- Digits are all taken in as long as the number they make fits. -/
theorem wholeDigits_append {rest : List Char} (hr : EndsBefore rest) :
    ∀ (ds : List Char) (g : Nat), (∀ c ∈ ds, c.isDigit) →
      Nat.ofDigitChars 10 ds g < UInt64.size →
      wholeDigits g (ds ++ rest) = (Nat.ofDigitChars 10 ds g, 0, rest)
  | [], g, _, _ => by
    rw [List.nil_append, Nat.ofDigitChars_nil]
    cases rest with
    | nil => rfl
    | cons c cs =>
      rw [wholeDigits, hr.isDigit_eq_false]
      rfl
  | c :: ds, g, hd, hlt => by
    have hc : c.isDigit := hd c List.mem_cons_self
    rw [ofDigitChars_cons_ten] at hlt ⊢
    -- the digits up to this one make a number that fits, since the whole one does
    have hfits : fits g c := by
      simpa [fits] using Nat.lt_of_le_of_lt (le_ofDigitChars ds _) hlt
    rw [List.cons_append, wholeDigits, hc, hfits]
    exact wholeDigits_append hr ds _ (fun d h => hd d (List.mem_cons_of_mem _ h)) hlt

/-- Behind the whole digits only their number counts, if nothing carries them on. -/
theorem afterWhole_of_endsBefore {rest : List Char} (hr : EndsBefore rest) (negative : Bool)
    (g dropped : Nat) :
    afterWhole negative g dropped rest =
      if dropped = 0 then .ok (integer negative g, rest)
      else real? negative g dropped rest := by
  cases rest with
  | nil => rfl
  | cons c cs =>
    obtain ⟨hpoint, he, hE⟩ := hr.ne
    rw [afterWhole]
    all_goals
      intro cs' h
      simp_all

theorem exists_toDigits_eq_cons (n : Nat) :
    ∃ d ds, Nat.toDigits 10 n = d :: ds ∧ d.isDigit ∧ ∀ c ∈ ds, c.isDigit := by
  obtain ⟨d, ds, hds⟩ : ∃ d ds, Nat.toDigits 10 n = d :: ds :=
    List.exists_cons_of_ne_nil Nat.toDigits_ne_nil
  have hdigit : ∀ c ∈ d :: ds, c.isDigit := fun c hc =>
    Nat.isDigit_of_mem_toDigits (by decide) (by decide) (hds ▸ hc)
  exact ⟨d, ds, hds, hdigit d List.mem_cons_self, fun c hc => hdigit c (List.mem_cons_of_mem _ hc)⟩

/-- The digits of a number do not begin with a zero, except for zero itself. -/
theorem head?_toDigits_ne_zero {n : Nat} (hn : 0 < n) :
    (Nat.toDigits 10 n).head? ≠ some '0' := by
  induction n using Nat.strongRecOn with
  | ind n ih =>
    rw [Nat.toDigits_eq_if (by decide)]
    split
    · next h =>
      have : ∀ m : Fin 10, 0 < m.val → m.val.digitChar ≠ '0' := by decide
      simpa using this ⟨n, h⟩ hn
    · next h =>
      have hhead := ih (n / 10) (by omega) (by omega)
      obtain ⟨d, ds, hds, -⟩ := exists_toDigits_eq_cons (n / 10)
      rw [hds] at hhead ⊢
      exact hhead

/-- A number other than zero is read by gathering the digits behind the first. -/
theorem exists_read_toDigits {n : Nat} (hn : n ≠ 0) :
    ∃ d ds, Nat.ofDigitChars 10 ds (digitValue d) = n ∧ digitValue d < UInt64.size ∧
      (∀ c ∈ ds, c.isDigit) ∧
      ∀ rest, read (Nat.toDigits 10 n ++ rest) =
        afterWhole false (wholeDigits (digitValue d) (ds ++ rest)).1
          (wholeDigits (digitValue d) (ds ++ rest)).2.1
          (wholeDigits (digitValue d) (ds ++ rest)).2.2 := by
  have hzero := head?_toDigits_ne_zero (Nat.pos_of_ne_zero hn)
  have hvalue : Nat.ofDigitChars 10 (Nat.toDigits 10 n) 0 = n := Nat.ofDigitChars_ten_toDigits
  obtain ⟨d, ds, hds, hd, hdigits⟩ := exists_toDigits_eq_cons n
  rw [hds] at hzero hvalue
  have hd0 : d ≠ '0' := fun h => hzero (congrArg some h)
  have hminus : d ≠ '-' := by
    rintro rfl
    exact absurd hd (by decide)
  have hlt : digitValue d < UInt64.size := by
    have hnine : d.toNat ≤ 57 := (Char.isDigit_iff_toNat.mp hd).2
    rw [digitValue, UInt64.size]
    omega
  rw [ofDigitChars_cons_ten, Nat.zero_mul, Nat.zero_add] at hvalue
  refine ⟨d, ds, hvalue, hlt, hdigits, fun rest => ?_⟩
  rw [hds, List.cons_append, read, unsigned, hd]
  · simp only [Bool.not_true, Bool.false_eq_true, if_false, if_neg hd0]
  · intro cs h
    exact hminus (List.cons.inj h).1

/-- **Decimal digits are read as the number they were made from.** -/
theorem read_toDigits {n : Nat} (hn : n < UInt64.size) {rest : List Char}
    (hr : EndsBefore rest) :
    read (Nat.toDigits 10 n ++ rest) = .ok (.natural (UInt64.ofNat n), rest) := by
  -- zero is read apart, since no digit may follow it
  by_cases h0 : n = 0
  · subst h0
    rw [Nat.toDigits_zero]
    show unsigned false ('0' :: rest) = _
    rw [unsigned, hr.head?_isDigit]
    exact afterWhole_of_endsBefore hr false 0 0
  · obtain ⟨d, ds, hvalue, -, hdigits, hread⟩ := exists_read_toDigits h0
    have hwhole : wholeDigits (digitValue d) (ds ++ rest) = (n, 0, rest) := by
      rw [wholeDigits_append hr ds _ hdigits (by rw [hvalue]; exact hn), hvalue]
    rw [hread, hwhole]
    exact afterWhole_of_endsBefore hr false n 0

/-- From the first digit on that has no room, digits are only counted. -/
theorem exists_wholeDigits_overflow {rest : List Char} (hr : EndsBefore rest) :
    ∀ (ds : List Char) (g : Nat), g < UInt64.size → (∀ c ∈ ds, c.isDigit) →
      UInt64.size ≤ Nat.ofDigitChars 10 ds g →
      ∃ g' dropped, wholeDigits g (ds ++ rest) = (g', dropped + 1, rest)
  | [], g, hg, _, hle => by
    rw [Nat.ofDigitChars_nil] at hle
    omega
  | c :: ds, g, _, hd, hle => by
    have hc : c.isDigit := hd c List.mem_cons_self
    have hds : ∀ d ∈ ds, d.isDigit := fun d h => hd d (List.mem_cons_of_mem _ h)
    rw [List.cons_append, wholeDigits, hc]
    by_cases hfits : fits g c = true
    · rw [hfits]
      rw [ofDigitChars_cons_ten] at hle
      exact exists_wholeDigits_overflow hr ds _ (by simpa [fits] using hfits) hds hle
    · -- this digit has no room, so the number is over for the significand, and digits are counted
      have hstop : rest.takeWhile Char.isDigit = [] ∧ rest.dropWhile Char.isDigit = rest := by
        cases rest with
        | nil => exact ⟨rfl, rfl⟩
        | cons e es =>
          have he : e.isDigit = false := hr.isDigit_eq_false
          exact ⟨List.takeWhile_cons_of_neg (by simp [he]),
            List.dropWhile_cons_of_neg (by simp [he])⟩
      rw [if_neg (by simp), if_neg hfits, ← List.cons_append,
        List.takeWhile_append_of_pos (fun d h => hd d h), hstop.1,
        List.dropWhile_append_of_pos (fun d h => hd d h), hstop.2]
      exact ⟨g, ds.length, by rw [List.append_nil, List.length_cons]⟩

/-- Digits that make a greater number than fits are read as a real number, if as any. -/
theorem read_toDigits_overflow {n : Nat} (hn : UInt64.size ≤ n) {rest : List Char}
    (hr : EndsBefore rest) :
    (∃ x, read (Nat.toDigits 10 n ++ rest) = .ok (.real x, rest)) ∨
      ∃ left, read (Nat.toDigits 10 n ++ rest) = .error ⟨.numberOutOfRange, left⟩ := by
  have h0 : n ≠ 0 := by
    rintro rfl
    exact absurd hn (by decide)
  obtain ⟨d, ds, hvalue, hlt, hdigits, hread⟩ := exists_read_toDigits h0
  obtain ⟨g, dropped, hwhole⟩ :=
    exists_wholeDigits_overflow hr ds _ hlt hdigits (by rw [hvalue]; exact hn)
  rw [hread, hwhole]
  simp only [afterWhole_of_endsBefore hr, Nat.add_one_ne_zero, if_false, real?]
  split
  · exact .inr ⟨_, rfl⟩
  · exact .inl ⟨_, rfl⟩

end Number

/-! ## Lexemes -/

theorem tokens_of_blank {text : List Char} (h : skipBlanks text = []) : tokens text = [] := by
  rw [tokens]
  split
  · rfl
  · next hcons =>
    rw [h] at hcons
    cases hcons

@[simp] theorem tokens_nil : tokens [] = [] := tokens_of_blank rfl

/-- The first lexeme of a text, and what follows it. -/
theorem tokens_of_skipBlanks {text : List Char} {c : Char} {cs : List Char}
    (h : skipBlanks text = c :: cs) :
    tokens text = ⟨(lex c cs).1, c :: cs, (lex c cs).2⟩ ::
      if (lex c cs).1.isWhole then tokens (lex c cs).2 else [] := by
  rw [tokens]
  split
  · next hnil =>
    rw [h] at hnil
    cases hnil
  · next hcons =>
    rw [h] at hcons
    cases hcons
    by_cases hwhole : (lex c cs).1.isWhole = true
    · simp only [hwhole, if_true]
    · simp only [hwhole, if_false, Bool.false_eq_true]

theorem skipBlanks_cons {c : Char} (hc : isBlank c = false) (cs : List Char) :
    skipBlanks (c :: cs) = c :: cs := by
  rw [skipBlanks, List.dropWhile_cons, hc]
  rfl

/-- The lexemes of a text that begins with one. -/
theorem tokens_cons {c : Char} {cs rest : List Char} {x : Lexeme} (hc : isBlank c = false)
    (hlex : lex c cs = (x, rest)) (hx : x.isWhole) :
    tokens (c :: cs) = ⟨x, c :: cs, rest⟩ :: tokens rest := by
  rw [tokens_of_skipBlanks (skipBlanks_cons hc cs), hlex, if_pos hx]

/-- A character that is a lexeme by itself, and no part of a number. -/
structure Mark (c : Char) (x : Lexeme) : Prop where
  isBlank_eq : isBlank c = false
  carriesOn_eq : Number.carriesOn c = false
  lex_eq : ∀ cs, lex c cs = (x, cs)
  isWhole : x.isWhole

theorem mark_openBrace : Mark '{' .openBrace := ⟨rfl, rfl, fun _ => rfl, rfl⟩

theorem mark_closeBrace : Mark '}' .closeBrace := ⟨rfl, rfl, fun _ => rfl, rfl⟩

theorem mark_openBracket : Mark '[' .openBracket := ⟨rfl, rfl, fun _ => rfl, rfl⟩

theorem mark_closeBracket : Mark ']' .closeBracket := ⟨rfl, rfl, fun _ => rfl, rfl⟩

theorem mark_comma : Mark ',' .comma := ⟨rfl, rfl, fun _ => rfl, rfl⟩

theorem mark_colon : Mark ':' .colon := ⟨rfl, rfl, fun _ => rfl, rfl⟩

theorem tokens_mark {c : Char} {x : Lexeme} (h : Mark c x) (cs : List Char) :
    tokens (c :: cs) = ⟨x, c :: cs, cs⟩ :: tokens cs :=
  tokens_cons h.isBlank_eq (h.lex_eq cs) h.isWhole

theorem tokens_null (cs : List Char) :
    tokens ('n' :: 'u' :: 'l' :: 'l' :: cs) =
      ⟨.null, 'n' :: 'u' :: 'l' :: 'l' :: cs, cs⟩ :: tokens cs := tokens_cons rfl rfl rfl

theorem tokens_quoted {s t : List Char} (h : Quoted.Spells s t) (rest : List Char) :
    tokens ('"' :: (t ++ '"' :: rest)) =
      ⟨.string s, '"' :: (t ++ '"' :: rest), rest⟩ :: tokens rest := by
  have hread := Quoted.read_spells h rest
  refine tokens_cons rfl ?_ rfl
  simp only [lex, hread]

/-- A digit or a minus sign begins a number. -/
theorem lex_number {c : Char} (hc : c = '-' ∨ c.isDigit) (cs : List Char) :
    lex c cs = match Number.read (c :: cs) with
      | .ok (n, rest) => (.number n, rest)
      | .error f => (.bad f, []) := by
  unfold lex
  split
  case h_11 => exact if_pos hc
  all_goals exact absurd hc (by decide)

theorem isBlank_of_number {c : Char} (hc : c = '-' ∨ c.isDigit) : isBlank c = false := by
  simp only [isBlank, Bool.or_eq_false_iff, beq_eq_false_iff_ne, ne_eq]
  refine ⟨⟨⟨?_, ?_⟩, ?_⟩, ?_⟩ <;>
    · rintro rfl
      exact absurd hc (by decide)

/-- A number is the first lexeme of a text, whatever it is read as. -/
theorem tokens_number {c : Char} (hc : c = '-' ∨ c.isDigit) (cs : List Char) :
    tokens (c :: cs) =
      match Number.read (c :: cs) with
      | .ok (m, rest) => ⟨.number m, c :: cs, rest⟩ :: tokens rest
      | .error f => [⟨.bad f, c :: cs, []⟩] := by
  rw [tokens_of_skipBlanks (skipBlanks_cons (isBlank_of_number hc) _), lex_number hc]
  cases Number.read (c :: cs) with
  | error f => rfl
  | ok p => rfl

/-- Decimal digits are a number, whatever it is read as. -/
theorem tokens_toDigits (n : Nat) (text : List Char) :
    tokens (Nat.toDigits 10 n ++ text) =
      match Number.read (Nat.toDigits 10 n ++ text) with
      | .ok (m, rest) => ⟨.number m, Nat.toDigits 10 n ++ text, rest⟩ :: tokens rest
      | .error f => [⟨.bad f, Nat.toDigits 10 n ++ text, []⟩] := by
  obtain ⟨d, ds, hds, hd, -⟩ := Number.exists_toDigits_eq_cons n
  rw [hds, List.cons_append, tokens_number (.inr hd)]

/-- The keys need no escapes. -/
theorem isPlain_key (field : Field) : field.key.all Quoted.isPlain := by
  cases field <;> decide

theorem spells_key (field : Field) : Quoted.Spells field.key field.key :=
  .of_plain field.key (isPlain_key field)

end PackedBits.Json
