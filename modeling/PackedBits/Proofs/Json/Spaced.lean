import PackedBits.Json.Record
import PackedBits.Proofs.Json.Written

/-!
# Texts with blanks, and numbers of any size

Blanks may stand in front of every lexeme and at the end of a text. They are not seen by a reader,
so a text is known by the pieces between them (`Spaced`). Where it goes on behind what is read, it
has a tail, which is not looked at.

A number in decimal digits may be too great for a word. What a reader makes of a text is therefore
told by `Reads`, together for both cases: it answers with the value if all numbers fit, and else it
complains about one that does not. It never makes do with another number.

Where it is not known beforehand whether a reader answers, `Leaves` tells what holds in either case.

## Main statements

* `tokens_append_blanks` — blanks are not seen
* `Spaced.mark`, `Spaced.quoted`, `Spaced.number` — the first piece of a text as a lexeme
* `Reads.bind`, `Leaves.bind` — reading one thing after another
-/

namespace PackedBits.Json

/-! ## Blanks -/

/--
A text made of pieces, with any blanks in front of each of them. Behind the last there may be blanks
and then a tail, which is any text.
-/
inductive Spaced (tail : List Char) : List (List Char) → List Char → Prop where
  | done {gap : List Char} (hgap : gap.all isBlank) : Spaced tail [] (gap ++ tail)
  | piece {gap : List Char} (hgap : gap.all isBlank) (p : List Char) {ps : List (List Char)}
      {rest : List Char} (h : Spaced tail ps rest) : Spaced tail (p :: ps) (gap ++ (p ++ rest))

/-- There is such a text for any choice of blanks. -/
theorem Spaced.of_gaps (gaps : List (List Char)) {ps : List (List Char)}
    (last : List Char) {tail : List Char} (hlength : gaps.length = ps.length)
    (hgaps : ∀ gap ∈ gaps, gap.all isBlank) (hlast : last.all isBlank) :
    Spaced tail ps ((List.zipWith (· ++ ·) gaps ps).flatten ++ (last ++ tail)) := by
  induction gaps generalizing ps with
  | nil =>
    obtain rfl := List.length_eq_zero_iff.mp hlength.symm
    exact .done hlast
  | cons gap gaps ih =>
    obtain ⟨p, ps, rfl⟩ := List.exists_cons_of_length_eq_add_one hlength.symm
    obtain ⟨hgap, hgaps⟩ := List.forall_mem_cons.mp hgaps
    rw [List.zipWith_cons_cons, List.flatten_cons, List.append_assoc, List.append_assoc]
    exact .piece hgap p (ih (Nat.succ.inj hlength) hgaps)

/-- There need not be any blanks. -/
theorem Spaced.of_flatten (ps : List (List Char)) (tail : List Char) :
    Spaced tail ps (ps.flatten ++ tail) := by
  induction ps with
  | nil => exact @done tail [] rfl
  | cons p ps ih =>
    rw [List.flatten_cons, List.append_assoc]
    exact @piece tail [] rfl p ps _ ih

theorem skipBlanks_append {gap : List Char} (hgap : gap.all isBlank) (text : List Char) :
    skipBlanks (gap ++ text) = skipBlanks text :=
  List.dropWhile_append_of_pos (List.all_eq_true.mp hgap)

theorem tokens_append_blanks {gap : List Char} (hgap : gap.all isBlank) (text : List Char) :
    tokens (gap ++ text) = tokens text := by
  have hskip := skipBlanks_append hgap text
  cases htext : skipBlanks text with
  | nil =>
    rw [htext] at hskip
    rw [tokens_of_blank hskip, tokens_of_blank htext]
  | cons c cs =>
    rw [htext] at hskip
    rw [tokens_of_skipBlanks hskip, tokens_of_skipBlanks htext]

/-- Behind all pieces there are the lexemes of the tail. -/
theorem tokens_of_spaced {tail text : List Char} (h : Spaced tail [] text) :
    tokens text = tokens tail := by
  cases h with
  | done hgap => exact tokens_append_blanks hgap tail

theorem carriesOn_of_isBlank {c : Char} (hc : isBlank c) : Number.carriesOn c = false := by
  simp only [isBlank, Bool.or_eq_true, beq_iff_eq] at hc
  obtain ((rfl | rfl) | rfl) | rfl := hc
  all_goals decide

/-! ## Pieces -/

namespace Spaced

variable {tail : List Char} {c : Char} {x : Lexeme} {ps : List (List Char)} {text : List Char}

theorem mark (hc : Mark c x) (h : Spaced tail ([c] :: ps) text) :
    ∃ t rest, t.lexeme = x ∧ Spaced tail ps rest ∧ tokens text = t :: tokens rest := by
  cases h with
  | @piece gap hgap _ _ rest h =>
    refine ⟨⟨x, c :: rest, rest⟩, rest, rfl, h, ?_⟩
    exact (tokens_append_blanks hgap _).trans (tokens_mark hc rest)

theorem quoted {s t : List Char} (hs : Quoted.Spells s t)
    (h : Spaced tail ((['"'] ++ t ++ ['"']) :: ps) text) :
    ∃ u rest, u.lexeme = .string s ∧ Spaced tail ps rest ∧ tokens text = u :: tokens rest := by
  cases h with
  | @piece gap hgap _ _ rest h =>
    refine ⟨⟨.string s, '"' :: (t ++ '"' :: rest), rest⟩, rest, rfl, h, ?_⟩
    have htext : (['"'] ++ t ++ ['"']) ++ rest = '"' :: (t ++ '"' :: rest) := by simp
    rw [tokens_append_blanks hgap, htext, tokens_quoted hs]

/-- A number ends before a mark, and before any blanks in front of it. -/
theorem endsBefore (hc : Mark c x) (h : Spaced tail ([c] :: ps) text) : Number.EndsBefore text := by
  cases h with
  | @piece gap hgap _ _ rest h =>
    cases gap with
    | nil => exact Number.endsBefore_cons hc.carriesOn_eq rest
    | cons b bs =>
      rw [List.all_cons, Bool.and_eq_true] at hgap
      exact Number.endsBefore_cons (carriesOn_of_isBlank hgap.1) _

end Spaced

/-! ## Reading -/

/-- The word of a number, if it fits. -/
def word? (n : Nat) : Option Word := if n < UInt64.size then some (UInt64.ofNat n) else none

/-- The complaint is about a number that is too great for a word. -/
def Cause.IsOverflow (cause : Cause) : Prop :=
  cause = .numberOutOfRange ∨ ∃ x expected, cause = .invalidType (.real x) expected

/--
An attempt gives a value and leaves a text made of `ps` and a tail. If there is no value, it fails
because a number is too great.
-/
def Reads {α : Type} (tail : List Char) (ps : List (List Char)) (r : Attempt (α × List Token)) :
    Option α → Prop
  | some a => ∃ rest, Spaced tail ps rest ∧ r = .ok (a, tokens rest)
  | none => ∃ f, r = .error f ∧ f.cause.IsOverflow

section Reads

variable {α β : Type} {tail : List Char} {ps qs : List (List Char)}
  {r : Attempt (α × List Token)} {v : Option α}

/-- One thing is read after another. -/
theorem Reads.bind (h : Reads tail ps r v) {k : α × List Token → Attempt (β × List Token)}
    {g : α → Option β}
    (hk : ∀ a rest, Spaced tail ps rest → Reads tail qs (k (a, tokens rest)) (g a)) :
    Reads tail qs (r.bind k) (v.bind g) := by
  cases v with
  | none =>
    obtain ⟨f, rfl, hf⟩ := h
    exact ⟨f, rfl, hf⟩
  | some a =>
    obtain ⟨rest, hrest, rfl⟩ := h
    exact hk a rest hrest

theorem Reads.map (h : Reads tail ps r v) (f : α → β) :
    Reads tail ps (r.map fun p => (f p.1, p.2)) (v.map f) := by
  cases v with
  | none =>
    obtain ⟨fault, rfl, hfault⟩ := h
    exact ⟨fault, rfl, hfault⟩
  | some a =>
    obtain ⟨rest, hrest, rfl⟩ := h
    exact ⟨rest, hrest, rfl⟩

end Reads

/--
An attempt fails with a fault of a certain kind, or it gives a value and leaves a text that fit
together.
-/
def Leaves {α : Type} (bad : Fault → Prop) (fit : α → List Char → Prop) :
    Attempt (α × List Token) → Prop
  | .error f => bad f
  | .ok p => ∃ rest, fit p.1 rest ∧ p.2 = tokens rest

section Leaves

variable {α β : Type} {bad : Fault → Prop} {fit : α → List Char → Prop}
  {fit' : β → List Char → Prop} {r : Attempt (α × List Token)}

/-- One thing is read after another. -/
theorem Leaves.bind (h : Leaves bad fit r) {k : α × List Token → Attempt (β × List Token)}
    (hk : ∀ a rest, fit a rest → Leaves bad fit' (k (a, tokens rest))) :
    Leaves bad fit' (r.bind k) := by
  cases r with
  | error f => exact h
  | ok p =>
    obtain ⟨a, ts⟩ := p
    obtain ⟨rest, hfit, rfl⟩ := h
    exact hk a rest hfit

theorem Leaves.map (h : Leaves bad fit r) (f : α → β)
    (hf : ∀ a rest, fit a rest → fit' (f a) rest) :
    Leaves bad fit' (r.map fun p => (f p.1, p.2)) := by
  cases r with
  | error fault => exact h
  | ok p =>
    obtain ⟨rest, hfit, hrest⟩ := h
    exact ⟨rest, hf p.1 rest hfit, hrest⟩

/-- If nothing fits together, the attempt fails. -/
theorem Leaves.exists_error (h : Leaves bad fit r) (hfit : ∀ a rest, ¬fit a rest) :
    ∃ f, r = .error f ∧ bad f := by
  cases r with
  | error f => exact ⟨f, rfl, h⟩
  | ok p =>
    obtain ⟨rest, hp, -⟩ := h
    exact absurd hp (hfit p.1 rest)

end Leaves

/-- **A number is read as itself, or refused for being too great.** -/
theorem Spaced.number {tail : List Char} {n : Nat} {c : Char} {x : Lexeme}
    {ps : List (List Char)} {text : List Char} (hc : Mark c x)
    (h : Spaced tail (Nat.toDigits 10 n :: [c] :: ps) text) :
    ∃ t ts, tokens text = t :: ts ∧ t.lexeme ≠ .closeBracket ∧
      ∀ expected, Reads tail ([c] :: ps) ((t.natural expected).map (·, ts)) (word? n) := by
  cases h with
  | @piece gap hgap _ _ rest h =>
    have hends : Number.EndsBefore rest := h.endsBefore hc
    rw [tokens_append_blanks hgap, tokens_toDigits]
    by_cases hn : n < UInt64.size
    · rw [Number.read_toDigits hn hends]
      refine ⟨_, _, rfl, by simp, fun expected => ?_⟩
      rw [word?, if_pos hn]
      exact ⟨rest, h, rfl⟩
    · -- as a real number it is not a word, and some numbers are too great even for that
      rcases Number.read_toDigits_overflow (Nat.le_of_not_lt hn) hends with ⟨y, hy⟩ | ⟨left, hy⟩
      · rw [hy]
        refine ⟨_, _, rfl, by simp, fun expected => ?_⟩
        rw [word?, if_neg hn]
        exact ⟨_, rfl, .inr ⟨y, expected, rfl⟩⟩
      · rw [hy]
        refine ⟨_, _, rfl, by simp, fun expected => ?_⟩
        rw [word?, if_neg hn]
        exact ⟨_, rfl, .inl rfl⟩

end PackedBits.Json
