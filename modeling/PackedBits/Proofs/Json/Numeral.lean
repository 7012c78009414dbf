import PackedBits.Proofs.Json.Written

/-!
# Ways to write a number

The grammar of numbers, with a sign, a fraction and an exponent. A number is refused if it is too
great, and else it is read to its end, whatever it is taken for. So what is behind it can be known
without the value.

Each part is read up to the first character that is no digit, also where its digits have no room.
Only an exponent may be left before its last digit, and then the others are skipped.

## Main statements

* `wholeDigits_rest`, `fractionDigits_rest`, `exponentDigits_rest` — digits are read to their end
* `read_numeral` — so is a number
-/

namespace PackedBits.Json.Number

/-! ## The grammar -/

/-- Decimal digits, of which there is at least one. -/
structure IsDigits (ds : List Char) : Prop where
  ne_nil : ds ≠ []
  isDigit : ∀ c ∈ ds, c.isDigit

/-- The digits before a point. A leading zero stands alone. -/
inductive IsWhole : List Char → Prop where
  | zero : IsWhole ['0']
  | digits {d : Char} {ds : List Char} (h0 : d ≠ '0') (h : IsDigits (d :: ds)) : IsWhole (d :: ds)

/-- A point and the digits behind it, or neither. -/
inductive IsFraction : List Char → Prop where
  | absent : IsFraction []
  | digits {ds : List Char} (h : IsDigits ds) : IsFraction ('.' :: ds)

/-- An exponent, or none. -/
inductive IsExponent : List Char → Prop where
  | absent : IsExponent []
  | digits {letter : Char} {sign ds : List Char} (hletter : letter = 'e' ∨ letter = 'E')
      (hsign : sign = [] ∨ sign = ['+'] ∨ sign = ['-']) (h : IsDigits ds) :
      IsExponent (letter :: (sign ++ ds))

/-- A way to write a number. -/
inductive IsNumeral : List Char → Prop where
  | mk {minus whole fraction exponent : List Char} (hminus : minus = [] ∨ minus = ['-'])
      (hwhole : IsWhole whole) (hfraction : IsFraction fraction)
      (hexponent : IsExponent exponent) : IsNumeral (minus ++ (whole ++ (fraction ++ exponent)))

/-! ## Digits are read to their end -/

theorem dropWhile_isDigit_append {ds rest : List Char} (hds : ∀ c ∈ ds, c.isDigit)
    (hrest : rest.head?.any Char.isDigit = false) :
    (ds ++ rest).dropWhile Char.isDigit = rest := by
  rw [List.dropWhile_append_of_pos hds]
  cases rest with
  | nil => rfl
  | cons c cs => exact List.dropWhile_cons_of_neg (by simpa using hrest)

theorem wholeDigits_rest (g : Nat) (cs : List Char) :
    (wholeDigits g cs).2.2 = cs.dropWhile Char.isDigit := by
  fun_induction wholeDigits g cs with
  | case1 => rfl
  | case2 g c cs hc => rw [List.dropWhile_cons_of_neg (by simpa using hc)]
  | case3 g c cs hc _ ih => rw [ih, List.dropWhile_cons_of_pos (by simpa using hc)]
  | case4 => rfl

theorem fractionDigits_rest (g : Nat) (cs : List Char) :
    (fractionDigits g cs).2.2 = cs.dropWhile Char.isDigit := by
  fun_induction fractionDigits g cs with
  | case1 => rfl
  | case2 g c cs hc => rw [List.dropWhile_cons_of_neg (by simpa using hc)]
  | case3 g c cs hc _ g' taken rest hr ih =>
    rw [hr] at ih
    rw [List.dropWhile_cons_of_pos (by simpa using hc)]
    exact ih
  | case4 => rfl

/-- An exponent that is too great may have been left before its last digit. -/
theorem exponentDigits_rest (x : Nat) (cs : List Char) :
    (exponentDigits x cs).2.dropWhile Char.isDigit = cs.dropWhile Char.isDigit ∧
      ((exponentDigits x cs).1.isSome → (exponentDigits x cs).2 = cs.dropWhile Char.isDigit) := by
  fun_induction exponentDigits x cs with
  | case1 => exact ⟨rfl, fun _ => rfl⟩
  | case2 x c cs hc =>
    have hdrop : (c :: cs).dropWhile Char.isDigit = c :: cs :=
      List.dropWhile_cons_of_neg (by simpa using hc)
    exact ⟨rfl, fun _ => hdrop.symm⟩
  | case3 x c cs hc _ ih =>
    rw [List.dropWhile_cons_of_pos (by simpa using hc)]
    exact ih
  | case4 x c cs hc _ =>
    rw [List.dropWhile_cons_of_pos (by simpa using hc)]
    refine ⟨rfl, fun hsome => ?_⟩
    cases hsome

/-! ## Parts are read to their end -/

section

variable {negative : Bool} {g dropped : Nat} {e : Int} {p : Number × List Char} {rest : List Char}

theorem exponentValue_rest {down : Bool} {cs : List Char}
    (h : exponentValue negative g e down cs = .ok p) : p.2 = cs.dropWhile Char.isDigit := by
  unfold exponentValue at h
  split at h
  · cases h
  · next c cs =>
    split at h
    · cases h
    · next hc =>
      obtain ⟨hdrop, hsome⟩ := exponentDigits_rest (digitValue c) cs
      rw [List.dropWhile_cons_of_pos (by simpa using hc)]
      split at h
      · next hx =>
        rw [hx] at hsome
        rw [real?_length h]
        exact hsome rfl
      · next hx =>
        rw [hx] at hdrop
        split at h
        · cases h
        · cases h
          exact hdrop

/-- A digit is no sign. -/
theorem exponent_of_isDigit {c : Char} (hc : c.isDigit) (cs : List Char) :
    exponent negative g e (c :: cs) = exponentValue negative g e false (c :: cs) := by
  unfold exponent
  split
  · next h =>
    cases h
    exact absurd hc (by decide)
  · next h =>
    cases h
    exact absurd hc (by decide)
  · rfl

theorem IsDigits.exists_cons {ds : List Char} (h : IsDigits ds) :
    ∃ d es, ds = d :: es ∧ d.isDigit := by
  obtain ⟨d, es, rfl⟩ := List.exists_cons_of_ne_nil h.ne_nil
  exact ⟨d, es, rfl, h.isDigit d List.mem_cons_self⟩

theorem exponent_rest {sign ds : List Char} (hsign : sign = [] ∨ sign = ['+'] ∨ sign = ['-'])
    (hds : IsDigits ds) (hr : EndsBefore rest)
    (h : exponent negative g e (sign ++ ds ++ rest) = .ok p) : p.2 = rest := by
  have hvalue : ∃ down, exponentValue negative g e down (ds ++ rest) = .ok p := by
    obtain rfl | rfl | rfl := hsign
    · obtain ⟨d, es, rfl, hd⟩ := hds.exists_cons
      exact ⟨false, (exponent_of_isDigit hd _).symm.trans h⟩
    · exact ⟨false, h⟩
    · exact ⟨true, h⟩
  obtain ⟨down, hvalue⟩ := hvalue
  rw [exponentValue_rest hvalue, dropWhile_isDigit_append hds.isDigit hr.head?_isDigit]

theorem afterFraction_of_endsBefore (hr : EndsBefore rest) :
    afterFraction negative g e rest = real? negative g e rest := by
  cases rest with
  | nil => rfl
  | cons c cs =>
    obtain ⟨-, he, hE⟩ := hr.ne
    rw [afterFraction]
    all_goals
      intro cs' h
      simp_all

theorem afterFraction_rest {exponent : List Char} (hexponent : IsExponent exponent)
    (hr : EndsBefore rest) (h : afterFraction negative g e (exponent ++ rest) = .ok p) :
    p.2 = rest := by
  cases hexponent with
  | absent =>
    rw [List.nil_append, afterFraction_of_endsBefore hr] at h
    exact real?_length h
  | digits hletter hsign hds =>
    obtain rfl | rfl := hletter
    · exact exponent_rest hsign hds hr h
    · exact exponent_rest hsign hds hr h

/-- No digit follows the digits before an exponent. -/
theorem IsExponent.head?_append {exponent : List Char} (hexponent : IsExponent exponent)
    (hr : EndsBefore rest) : (exponent ++ rest).head?.any Char.isDigit = false := by
  cases hexponent with
  | absent => exact hr.head?_isDigit
  | digits hletter _ _ =>
    obtain rfl | rfl := hletter
    · rfl
    · rfl

theorem fraction_rest {ds exponent : List Char} (hds : IsDigits ds)
    (hexponent : IsExponent exponent) (hr : EndsBefore rest)
    (h : fraction negative g e (ds ++ (exponent ++ rest)) = .ok p) : p.2 = rest := by
  have hdigits := fractionDigits_rest g (ds ++ (exponent ++ rest))
  rw [dropWhile_isDigit_append hds.isDigit (hexponent.head?_append hr)] at hdigits
  obtain ⟨d, es, rfl, hd⟩ := hds.exists_cons
  rw [List.cons_append] at h hdigits
  rw [fraction, if_neg (by simp [hd])] at h
  split at h
  next g' taken behind hread =>
    rw [hread] at hdigits
    obtain rfl : behind = exponent ++ rest := hdigits
    exact afterFraction_rest hexponent hr h

theorem afterWhole_rest {fraction exponent : List Char} (hfraction : IsFraction fraction)
    (hexponent : IsExponent exponent) (hr : EndsBefore rest)
    (h : afterWhole negative g dropped (fraction ++ (exponent ++ rest)) = .ok p) : p.2 = rest := by
  cases hfraction with
  | digits hds => exact fraction_rest hds hexponent hr h
  | absent =>
    cases hexponent with
    | absent =>
      rw [List.nil_append, List.nil_append, afterWhole_of_endsBefore hr] at h
      split at h
      · cases h
        rfl
      · exact real?_length h
    | digits hletter hsign hds =>
      obtain rfl | rfl := hletter
      · exact exponent_rest hsign hds hr h
      · exact exponent_rest hsign hds hr h

/-- No digit follows the digits before a fraction. -/
theorem IsFraction.head?_append {fraction exponent : List Char} (hfraction : IsFraction fraction)
    (hexponent : IsExponent exponent) (hr : EndsBefore rest) :
    (fraction ++ (exponent ++ rest)).head?.any Char.isDigit = false := by
  cases hfraction with
  | absent => exact hexponent.head?_append hr
  | digits _ => rfl

theorem unsigned_rest {whole fraction exponent : List Char} (hwhole : IsWhole whole)
    (hfraction : IsFraction fraction) (hexponent : IsExponent exponent) (hr : EndsBefore rest)
    (h : unsigned negative (whole ++ (fraction ++ (exponent ++ rest))) = .ok p) : p.2 = rest := by
  have hhead := hfraction.head?_append hexponent hr
  cases hwhole with
  | zero =>
    rw [List.singleton_append, unsigned, if_neg (by decide), if_pos rfl, hhead,
      if_neg (by decide)] at h
    exact afterWhole_rest hfraction hexponent hr h
  | @digits d ds h0 hds =>
    obtain ⟨hd, hdigits⟩ := List.forall_mem_cons.mp hds.isDigit
    have hrest := wholeDigits_rest (digitValue d) (ds ++ (fraction ++ (exponent ++ rest)))
    rw [dropWhile_isDigit_append hdigits hhead] at hrest
    rw [List.cons_append, unsigned, if_neg (by simp [hd]), if_neg h0] at h
    split at h
    next g dropped behind hread =>
      rw [hread] at hrest
      obtain rfl : behind = fraction ++ (exponent ++ rest) := hrest
      exact afterWhole_rest hfraction hexponent hr h

end

/-- A number without a sign begins with a digit. -/
theorem IsWhole.exists_cons {whole : List Char} (h : IsWhole whole) :
    ∃ d ds, whole = d :: ds ∧ d.isDigit := by
  cases h with
  | zero => exact ⟨'0', [], rfl, rfl⟩
  | digits _ h => exact h.exists_cons

/-- **A number is read to its end, if it is not refused.** -/
theorem read_numeral {t rest : List Char} (ht : IsNumeral t) (hr : EndsBefore rest)
    {p : Number × List Char} (h : read (t ++ rest) = .ok p) : p.2 = rest := by
  obtain ⟨hminus, hwhole, hfraction, hexponent⟩ := ht
  rw [List.append_assoc, List.append_assoc, List.append_assoc] at h
  obtain rfl | rfl := hminus
  · obtain ⟨d, ds, rfl, hd⟩ := hwhole.exists_cons
    rw [List.nil_append, List.cons_append, read] at h
    · exact unsigned_rest hwhole hfraction hexponent hr h
    · intro cs hcs
      cases hcs
      exact absurd hd (by decide)
  · exact unsigned_rest hwhole hfraction hexponent hr h

/-- A number begins with a digit or with a minus sign. -/
theorem IsNumeral.exists_cons {t : List Char} (h : IsNumeral t) :
    ∃ c cs, t = c :: cs ∧ (c = '-' ∨ c.isDigit) := by
  obtain ⟨hminus, hwhole, -, -⟩ := h
  obtain rfl | rfl := hminus
  · obtain ⟨d, ds, rfl, hd⟩ := hwhole.exists_cons
    exact ⟨d, _, rfl, .inr hd⟩
  · exact ⟨'-', _, rfl, .inl rfl⟩

/-- Decimal digits without a leading zero are a way to write a number. -/
theorem isNumeral_toDigits (n : Nat) : IsNumeral (Nat.toDigits 10 n) := by
  have hwhole : IsWhole (Nat.toDigits 10 n) := by
    by_cases h0 : n = 0
    · subst h0
      exact .zero
    · have hhead := head?_toDigits_ne_zero (Nat.pos_of_ne_zero h0)
      obtain ⟨d, ds, hds, hd, hdigits⟩ := exists_toDigits_eq_cons n
      rw [hds] at hhead ⊢
      refine .digits (fun h => hhead (congrArg some h)) ⟨List.cons_ne_nil d ds, ?_⟩
      exact List.forall_mem_cons.mpr ⟨hd, hdigits⟩
  simpa using IsNumeral.mk (.inl rfl) hwhole .absent .absent

end PackedBits.Json.Number
