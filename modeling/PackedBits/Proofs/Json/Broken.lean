import PackedBits.Proofs.Json.Layout

/-!
# Texts that break off

The JSON form of a bitmap is put together from pieces without blanks. A text that begins like it may
break off between two pieces or inside of one (`BreaksOff`). Inside of a quoted text or a name it is
plain from the last lexeme that something is missing. A number that is cut is a number all the same,
though not the one that was written; but then nothing comes behind it.

So what is read of such a text before it ends does not matter. Each reader complains about the end
of the text or leaves another text that breaks off, and behind the last piece no text is left that
could.

## Main statements

* `BreaksOff.mark`, `BreaksOff.quoted`, `BreaksOff.number` — the first piece as a lexeme
* `leaves_words`, `leaves_objectForm` — lists and objects that break off
* `record_of_breaksOff`, `optionalRecord_of_cut_null` — whole forms
-/

namespace PackedBits.Json

/-! ## The end of a text -/

/-- The cause is that a text ends too early. -/
def Cause.isEnd : Cause → Bool
  | .endInValue | .endInList | .endInObject | .endInString => true
  | _ => false

/-- The fault is that a text ends too early. It is found at its end. -/
structure Fault.AtEnd (f : Fault) : Prop where
  isEnd_cause : f.cause.isEnd
  left_eq : f.left = 0

theorem Cause.message_of_isEnd {cause : Cause} (h : cause.isEnd) :
    ∃ what, cause.message = "EOF while parsing " ++ what := by
  cases cause with
  | endInValue => exact ⟨"a value", rfl⟩
  | endInList => exact ⟨"a list", rfl⟩
  | endInObject => exact ⟨"an object", rfl⟩
  | endInString => exact ⟨"a string", rfl⟩
  | _ => cases h

/-! ## Breaking off -/

/-- A text begins like one that is made of pieces without blanks, and ends before it. -/
inductive BreaksOff : List (List Char) → List Char → Prop where
  | inside {p text rest : List Char} (hp : text ++ rest = p) (hrest : rest ≠ [])
      (ps : List (List Char)) : BreaksOff (p :: ps) text
  | behind (p : List Char) {ps : List (List Char)} {text : List Char} (h : BreaksOff ps text) :
      BreaksOff (p :: ps) (p ++ text)

theorem BreaksOff.of_flatten {ps : List (List Char)} {text rest : List Char} (hrest : rest ≠ [])
    (h : text ++ rest = ps.flatten) : BreaksOff ps text := by
  induction ps generalizing text with
  | nil => exact absurd (List.append_eq_nil_iff.mp h).2 hrest
  | cons p ps ih =>
    rw [List.flatten_cons] at h
    obtain ⟨more, rfl, hmore⟩ | ⟨behind, rfl, hbehind⟩ := List.append_eq_append_iff.mp h
    · cases more with
      | nil =>
        -- the text breaks off just behind this piece
        have hflatten : [] ++ rest = ps.flatten := hmore
        simpa using BreaksOff.behind text (ih hflatten)
      | cons c cs => exact .inside rfl (List.cons_ne_nil c cs) ps
    · exact .behind p (ih hbehind.symm)

/-- A text without its last part lacks its last character. -/
theorem append_of_append_eq_concat {text rest s : List Char} {c : Char} (hrest : rest ≠ [])
    (h : text ++ rest = s ++ [c]) : ∃ more, text ++ more = s := by
  have hlast : text ++ rest.dropLast ++ [rest.getLast hrest] = s ++ [c] := by
    rw [List.append_assoc, List.dropLast_concat_getLast, h]
  exact ⟨rest.dropLast, (List.append_inj' hlast rfl).1⟩

/-! ## Numbers -/

namespace Number

/-- The first digits of a number are the digits of a smaller one. -/
theorem exists_eq_toDigits {ds es : List Char} {n : Nat} (hds : ds ≠ [])
    (h : ds ++ es = Nat.toDigits 10 n) : ∃ m, m ≤ n ∧ ds = Nat.toDigits 10 m := by
  induction n using Nat.strongRecOn generalizing es with
  | ind n ih =>
    by_cases hes : es = []
    · exact ⟨n, Nat.le_refl n, by rw [← h, hes, List.append_nil]⟩
    · rw [Nat.toDigits_eq_if (by decide)] at h
      split at h
      · -- there is only one digit, and it is not among the first
        obtain ⟨more, hmore⟩ := append_of_append_eq_concat (s := []) hes h
        exact absurd (List.append_eq_nil_iff.mp hmore).1 hds
      · next hn =>
        obtain ⟨more, hmore⟩ := append_of_append_eq_concat hes h
        obtain ⟨m, hm, hdigits⟩ := ih (n / 10) (by omega) hmore
        exact ⟨m, by omega, hdigits⟩

end Number

/-! ## Pieces -/

namespace BreaksOff

variable {c : Char} {x : Lexeme} {ps : List (List Char)} {text : List Char}

/-- Where something is to come, a text may break off at once. -/
theorem start (c : Char) (ps : List (List Char)) : BreaksOff ([c] :: ps) [] :=
  .inside (List.nil_append [c]) (List.cons_ne_nil c []) ps

theorem mark (hc : Mark c x) (h : BreaksOff ([c] :: ps) text) :
    text = [] ∨ ∃ t rest, t.lexeme = x ∧ BreaksOff ps rest ∧ tokens text = t :: tokens rest := by
  cases h with
  | inside hp hrest =>
    obtain ⟨more, hmore⟩ := append_of_append_eq_concat (s := []) hrest hp
    exact .inl (List.append_eq_nil_iff.mp hmore).1
  | @behind _ _ rest h => exact .inr ⟨⟨x, c :: rest, rest⟩, rest, rfl, h, tokens_mark hc rest⟩

theorem quoted {s : List Char} (hs : s.all Quoted.isPlain)
    (h : BreaksOff ((['"'] ++ s ++ ['"']) :: ps) text) :
    text = [] ∨ ∃ t ts, tokens text = t :: ts ∧
      (t.lexeme = .badString ⟨.endInString, 0⟩ ∨
        t.lexeme = .string s ∧ ∃ rest, BreaksOff ps rest ∧ ts = tokens rest) := by
  cases h with
  | inside hp hrest =>
    obtain ⟨more, hmore⟩ := append_of_append_eq_concat hrest hp
    cases text with
    | nil => exact .inl rfl
    | cons c cs =>
      -- what follows the opening quote is the beginning of a text that is never closed
      obtain ⟨rfl, htail⟩ := List.cons.inj hmore
      have hcut : cs ++ more = s := htail
      rw [← hcut, List.all_append, Bool.and_eq_true] at hs
      have hlex : lex '"' cs = (.badString ⟨.endInString, 0⟩, []) := by
        simp only [lex, Quoted.read_unclosed (.of_plain cs hs.1)]
      refine .inr ⟨_, _, tokens_of_skipBlanks (skipBlanks_cons rfl cs), .inl ?_⟩
      rw [hlex]
  | @behind _ _ rest h =>
    have htext : (['"'] ++ s ++ ['"']) ++ rest = '"' :: (s ++ '"' :: rest) := by simp
    rw [htext, tokens_quoted (.of_plain s hs)]
    exact .inr ⟨_, _, rfl, .inr ⟨rfl, rest, h, rfl⟩⟩

/-- A number ends before a mark, and where the text ends. -/
theorem endsBefore (hc : Mark c x) (h : BreaksOff ([c] :: ps) text) : Number.EndsBefore text := by
  cases h with
  | inside hp hrest =>
    obtain ⟨more, hmore⟩ := append_of_append_eq_concat (s := []) hrest hp
    rw [(List.append_eq_nil_iff.mp hmore).1]
    exact nofun
  | @behind _ _ rest h => exact Number.endsBefore_cons hc.carriesOn_eq rest

/-- A number that is cut is a number too. -/
theorem number {n : Nat} (hn : n < UInt64.size) (hc : Mark c x)
    (h : BreaksOff (Nat.toDigits 10 n :: [c] :: ps) text) :
    text = [] ∨ ∃ t m rest, t.lexeme = .number (.natural m) ∧ BreaksOff ([c] :: ps) rest ∧
      tokens text = t :: tokens rest := by
  -- either way some number is written out, and the text breaks off before the mark
  suffices hdigits : text = [] ∨ ∃ m rest, m < UInt64.size ∧ BreaksOff ([c] :: ps) rest ∧
      text = Nat.toDigits 10 m ++ rest by
    obtain rfl | ⟨m, rest, hm, hrest, rfl⟩ := hdigits
    · exact .inl rfl
    · rw [tokens_toDigits, Number.read_toDigits hm (hrest.endsBefore hc)]
      exact .inr ⟨_, _, rest, rfl, hrest, rfl⟩
  cases h with
  | inside hp _ =>
    by_cases htext : text = []
    · exact .inl htext
    · obtain ⟨m, hm, hdigits⟩ := Number.exists_eq_toDigits htext hp
      exact .inr ⟨m, [], Nat.lt_of_le_of_lt hm hn, start c ps, by rw [hdigits, List.append_nil]⟩
  | @behind _ _ rest h => exact .inr ⟨n, rest, hn, h, rfl⟩

end BreaksOff

/-! ## Lists of numbers -/

section

variable {c : Char} {x : Lexeme} {ps : List (List Char)} {text : List Char}

theorem natural_of_lexeme {t : Token} {m : UInt64} (ht : t.lexeme = .number (.natural m))
    (expected : Expectation) : t.natural expected = .ok m := by
  rw [Token.natural, ht]

/-- The words of a list behind one of them. -/
theorem leaves_moreWords (ws : List Word)
    (h : BreaksOff (morePieces (ws.map UInt64.toNat) ++ [']'] :: ps) text) :
    Leaves Fault.AtEnd (fun _ => BreaksOff ps) (moreWords (tokens text)) := by
  induction ws generalizing text with
  | nil =>
    obtain rfl | ⟨t, rest, ht, hrest, htext⟩ := h.mark mark_closeBracket
    · rw [tokens_nil, moreWords.eq_def]
      exact ⟨rfl, rfl⟩
    · rw [htext, moreWords.eq_def]
      simp only [ht]
      exact ⟨rest, hrest, rfl⟩
  | cons w ws ih =>
    obtain ⟨d, x, qs, hd, hqs⟩ := exists_mark_morePieces (ws.map UInt64.toNat) ps
    rw [List.map_cons, morePieces, List.flatMap_cons, ← morePieces, List.append_assoc, hqs] at h
    rw [hqs] at ih
    obtain rfl | ⟨t, behind, ht, hbehind, htext⟩ := h.mark mark_comma
    · rw [tokens_nil, moreWords.eq_def]
      exact ⟨rfl, rfl⟩
    rw [htext]
    obtain rfl | ⟨u, m, rest, hu, hrest, hnumber⟩ := hbehind.number w.toNat_lt_size hd
    · rw [tokens_nil, moreWords.eq_def]
      simp only [ht]
      exact ⟨rfl, rfl⟩
    · rw [hnumber, moreWords_comma ht (by simp [hu]), natural_of_lexeme hu]
      exact (ih hrest).map (m :: ·) fun _ _ hlast => hlast

/-- **A list of numbers that breaks off.** -/
theorem leaves_words (ws : List Word)
    (h : BreaksOff (listPieces (ws.map UInt64.toNat) ++ ps) text) :
    Leaves Fault.AtEnd (fun _ => BreaksOff ps) (words (tokens text)) := by
  cases ws with
  | nil =>
    obtain rfl | ⟨t, behind, ht, hbehind, htext⟩ := h.mark mark_openBracket
    · rw [tokens_nil, words]
      exact ⟨rfl, rfl⟩
    rw [htext, words]
    simp only [ht]
    obtain rfl | ⟨u, rest, hu, hrest, hclose⟩ := hbehind.mark mark_closeBracket
    · rw [tokens_nil, firstWords]
      exact ⟨rfl, rfl⟩
    · rw [hclose, firstWords]
      simp only [hu]
      exact ⟨rest, hrest, rfl⟩
  | cons w ws =>
    obtain ⟨d, x, qs, hd, hqs⟩ := exists_mark_morePieces (ws.map UInt64.toNat) ps
    rw [List.map_cons, listPieces_cons, List.cons_append, List.cons_append, List.append_assoc,
      List.singleton_append, hqs] at h
    obtain rfl | ⟨t, behind, ht, hbehind, htext⟩ := h.mark mark_openBracket
    · rw [tokens_nil, words]
      exact ⟨rfl, rfl⟩
    rw [htext, words]
    simp only [ht]
    obtain rfl | ⟨u, m, rest, hu, hrest, hnumber⟩ := hbehind.number w.toNat_lt_size hd
    · rw [tokens_nil, firstWords]
      exact ⟨rfl, rfl⟩
    · rw [hnumber, firstWords_cons (by simp [hu]), natural_of_lexeme hu]
      rw [← hqs] at hrest
      exact (leaves_moreWords ws hrest).map (m :: ·) fun _ _ hlast => hlast

/-! ## Members of an object -/

/-- A key leads to its value, if the text goes so far. -/
theorem BreaksOff.member {field : Field} {got : Fields} (hnew : got.has field = false)
    (h : BreaksOff (keyPieces field ++ ps) text) :
    text = [] ∨ ∃ t ts, tokens text = t :: ts ∧ t.lexeme ≠ .closeBrace ∧
      ((∃ f, member got t ts = .error f ∧ f.AtEnd) ∨
        ∃ rest, BreaksOff ps rest ∧ member got t ts = fieldValue got field (tokens rest)) := by
  obtain rfl | ⟨t, ts, htext, hbad | ⟨hkey, behind, hbehind, rfl⟩⟩ := h.quoted (isPlain_key field)
  · exact .inl rfl
  · refine .inr ⟨t, ts, htext, by simp [hbad], .inl ⟨⟨.endInString, 0⟩, ?_, ⟨rfl, rfl⟩⟩⟩
    rw [Json.member, hbad]
  · refine .inr ⟨t, _, htext, by simp [hkey], ?_⟩
    obtain rfl | ⟨u, rest, hu, hrest, hcolon⟩ := hbehind.mark mark_colon
    · refine .inl ⟨⟨.endInObject, 0⟩, ?_, ⟨rfl, rfl⟩⟩
      rw [Json.member, hkey, tokens_nil]
      simp only [keyed, ofKey_key, hnew, colon, Bool.false_eq_true, if_false]
    · refine .inr ⟨rest, hrest, ?_⟩
      rw [hcolon, member_key hnew hkey hu]

section

variable {β : Type} {fit : β → List Char → Prop} {got : Fields} {field : Field}

section

variable {k : Fields × List Token → Attempt (β × List Token)}

/-- The number of flags is read, and then the rest. -/
theorem leaves_bits {n : UInt64} (hc : Mark c x)
    (h : BreaksOff (Nat.toDigits 10 n.toNat :: [c] :: ps) text)
    (hk : ∀ m rest, BreaksOff ([c] :: ps) rest →
      Leaves Fault.AtEnd fit (k ({ got with bits := some m }, tokens rest))) :
    Leaves Fault.AtEnd fit ((fieldValue got .bits (tokens text)).bind k) := by
  obtain rfl | ⟨t, m, rest, ht, hrest, htext⟩ := h.number n.toNat_lt_size hc
  · rw [tokens_nil, fieldValue]
    exact ⟨rfl, rfl⟩
  · rw [htext, fieldValue_bits_bind, natural_of_lexeme ht]
    exact hk m rest hrest

/-- The words are read, and then the rest. -/
theorem leaves_elems {ws : List Word} (h : BreaksOff (listPieces (ws.map UInt64.toNat) ++ ps) text)
    (hk : ∀ vs rest, BreaksOff ps rest →
      Leaves Fault.AtEnd fit (k ({ got with elems := some vs }, tokens rest))) :
    Leaves Fault.AtEnd fit ((fieldValue got .elems (tokens text)).bind k) := by
  rw [fieldValue_elems_bind]
  exact (leaves_words ws h).bind hk

end

variable {fit : Bitmap → List Char → Prop}

/-- The first member of an object. -/
theorem leaves_objectForm (h : BreaksOff (keyPieces field ++ ps) text)
    (hk : ∀ rest, BreaksOff ps rest → Leaves Fault.AtEnd fit
      ((fieldValue ⟨none, none⟩ field (tokens rest)).bind fun p => moreMembers p.1 p.2)) :
    Leaves Fault.AtEnd fit (objectForm (tokens text)) := by
  have hnew : Fields.has ⟨none, none⟩ field = false := by
    cases field <;> rfl
  obtain rfl | ⟨t, ts, htext, ht, hmember⟩ := h.member hnew
  · rw [tokens_nil, objectForm]
    exact ⟨rfl, rfl⟩
  rw [htext, objectForm_cons ht]
  obtain ⟨f, hf, hend⟩ | ⟨rest, hrest, hvalue⟩ := hmember
  · rw [hf]
    exact hend
  · rw [hvalue]
    exact hk rest hrest

/-- A further member. -/
theorem leaves_moreMembers (hnew : got.has field = false)
    (h : BreaksOff ([','] :: (keyPieces field ++ ps)) text)
    (hk : ∀ rest, BreaksOff ps rest → Leaves Fault.AtEnd fit
      ((fieldValue got field (tokens rest)).bind fun p => moreMembers p.1 p.2)) :
    Leaves Fault.AtEnd fit (moreMembers got (tokens text)) := by
  obtain rfl | ⟨t, behind, ht, hbehind, htext⟩ := h.mark mark_comma
  · rw [tokens_nil, moreMembers.eq_def]
    exact ⟨rfl, rfl⟩
  rw [htext]
  obtain rfl | ⟨u, us, hbehind', hu, hmember⟩ := hbehind.member hnew
  · rw [tokens_nil, moreMembers.eq_def]
    simp only [ht]
    exact ⟨rfl, rfl⟩
  rw [hbehind', moreMembers_comma got ht hu]
  obtain ⟨f, hf, hend⟩ | ⟨rest, hrest, hvalue⟩ := hmember
  · rw [hf]
    exact hend
  · rw [hvalue]
    exact hk rest hrest

/-- The end of an object. -/
theorem leaves_closeBrace {n : UInt64} {ws : List Word} (h : BreaksOff ([['}']] ++ ps) text) :
    Leaves Fault.AtEnd (fun _ => BreaksOff ps) (moreMembers ⟨some n, some ws⟩ (tokens text)) := by
  obtain rfl | ⟨t, rest, ht, hrest, htext⟩ := h.mark mark_closeBrace
  · rw [tokens_nil, moreMembers.eq_def]
    exact ⟨rfl, rfl⟩
  · rw [htext, moreMembers.eq_def]
    simp only [ht]
    exact ⟨rest, hrest, rfl⟩

end

end

/-! ## Whole forms -/

/-- **An object that breaks off is refused for its end.** -/
theorem record_of_breaksOff {n : UInt64} {ws : List Word} {text : List Char}
    (h : BreaksOff ((Layout.object .bits).pieces n.toNat (ws.map UInt64.toNat)) text) :
    ∃ f, record (tokens text) = .error f ∧ f.AtEnd := by
  have hleaves : Leaves Fault.AtEnd (fun _ => BreaksOff []) (record (tokens text)) := by
    obtain rfl | ⟨t, behind, ht, hbehind, htext⟩ := h.mark mark_openBrace
    · rw [tokens_nil, record]
      exact ⟨rfl, rfl⟩
    rw [htext, record]
    simp only [ht]
    simp only [memberPieces, List.append_assoc] at hbehind
    refine leaves_objectForm hbehind fun rest hrest => ?_
    refine leaves_bits mark_comma hrest fun m behind hbehind => ?_
    refine leaves_moreMembers rfl hbehind fun rest hrest => ?_
    refine leaves_elems hrest fun vs behind hbehind => ?_
    exact leaves_closeBrace hbehind
  refine hleaves.exists_error fun _ rest hrest => ?_
  -- behind the last piece nothing could break off
  cases hrest

/-- So it is where there may be no object. -/
theorem optionalRecord_of_breaksOff {n : UInt64} {ws : List Word} {text : List Char}
    (h : BreaksOff ((Layout.object .bits).pieces n.toNat (ws.map UInt64.toNat)) text) :
    ∃ f, optionalRecord (tokens text) = .error f ∧ f.AtEnd := by
  obtain rfl | ⟨t, rest, ht, -, htext⟩ := h.mark mark_openBrace
  · exact ⟨⟨.endInValue, 0⟩, by rw [tokens_nil, optionalRecord], ⟨rfl, rfl⟩⟩
  · obtain ⟨f, hread, hend⟩ := record_of_breaksOff h
    rw [htext] at hread ⊢
    exact ⟨f, by rw [optionalRecord_cons (by simp [ht]), hread]; rfl, hend⟩

theorem nameRest_of_cut {cs rest : List Char} (hrest : rest ≠ []) :
    nameRest (cs ++ rest) cs = .error ⟨.endInValue, 0⟩ := by
  induction cs with
  | nil =>
    obtain ⟨c, cs, rfl⟩ := List.exists_cons_of_ne_nil hrest
    rw [List.nil_append, nameRest]
  | cons c cs ih => rw [List.cons_append, nameRest, if_pos rfl, ih]

/-- A name that breaks off is no better. -/
theorem optionalRecord_of_cut_null {text rest : List Char} (hrest : rest ≠ [])
    (h : text ++ rest = ['n', 'u', 'l', 'l']) :
    ∃ f, optionalRecord (tokens text) = .error f ∧ f.AtEnd := by
  cases text with
  | nil => exact ⟨⟨.endInValue, 0⟩, by rw [tokens_nil, optionalRecord], ⟨rfl, rfl⟩⟩
  | cons c cs =>
    obtain ⟨rfl, htail⟩ := List.cons.inj h
    have hname : cs ++ rest = ['u', 'l', 'l'] := htail
    have hlex : lex 'n' cs = (.bad ⟨.endInValue, 0⟩, []) := by
      simp only [lex, named, ← hname, nameRest_of_cut hrest]
    refine ⟨⟨.endInValue, 0⟩, ?_, ⟨rfl, rfl⟩⟩
    rw [tokens_of_skipBlanks (skipBlanks_cons rfl cs), hlex]
    rfl

end PackedBits.Json
