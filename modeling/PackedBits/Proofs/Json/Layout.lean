import PackedBits.Proofs.Json.Spaced

/-!
# Ways to set out a bitmap

The same number of flags and the same words can be set out in JSON in several ways: as an object
with its members in either order or as a list of two, and with blanks between the lexemes. All of
them are read as the same numbers, whatever comes behind.

The members of an object are read one after the other into `Fields`, so the two orders meet only
when both are there (`reads_objectForm`).

## Main statements

* `reads_words` — a list of numbers
* `reads_objectForm`, `reads_listForm` — either form behind its first lexeme
* `reads_record` — a whole form, however it is set out
-/

namespace PackedBits.Json

/-! ## Setting out -/

/-- The other field. -/
def Field.other : Field → Field
  | .bits => .elems
  | .elems => .bits

/-- The lexemes of a list of numbers. -/
def listPieces (ns : List Nat) : List (List Char) :=
  ['['] :: ((ns.map (Nat.toDigits 10)).intersperse [','] ++ [[']']])

/-- The lexemes of the value of a field. -/
def valuePieces (bits : Nat) (elems : List Nat) : Field → List (List Char)
  | .bits => [Nat.toDigits 10 bits]
  | .elems => listPieces elems

/-- The lexemes of a member up to its value. -/
def keyPieces (field : Field) : List (List Char) := [['"'] ++ field.key ++ ['"'], [':']]

/-- The lexemes of a member. -/
def memberPieces (bits : Nat) (elems : List Nat) (field : Field) : List (List Char) :=
  keyPieces field ++ valuePieces bits elems field

/-- A way to set out a number of flags and some words. -/
inductive Layout where
  /-- An object that begins with a field. -/
  | object (first : Field)
  /-- A list of two. -/
  | list
  deriving DecidableEq

/-- The lexemes of a number of flags and some words. -/
def Layout.pieces (bits : Nat) (elems : List Nat) : Layout → List (List Char)
  | .object first =>
    ['{'] :: (memberPieces bits elems first ++ [','] :: (memberPieces bits elems first.other ++
      [['}']]))
  | .list => ['['] :: Nat.toDigits 10 bits :: [','] :: (listPieces elems ++ [[']']])

/-- A text says these numbers, set out in a way, with any blanks between the lexemes. -/
def Layout.Renders (layout : Layout) (bits : Nat) (elems : List Nat) (text : String) : Prop :=
  Spaced [] (layout.pieces bits elems) text.toList

/-! ## Numbers that fit -/

/-- The number of flags and the words, if all of the numbers fit. -/
def pair? (bits : Nat) (elems : List Nat) : Option Bitmap :=
  (word? bits).bind fun n => (elems.mapM word?).bind fun ws => some ⟨n, ws.toArray⟩

theorem mapM_word?_cons (n : Nat) (ns : List Nat) :
    (n :: ns).mapM word? = (word? n).bind fun w => (ns.mapM word?).map (w :: ·) := by
  rw [List.mapM_cons]
  cases word? n with
  | none => rfl
  | some w => cases ns.mapM word? <;> rfl

theorem mapM_word? (ns : List Nat) :
    ns.mapM word? =
      if ∀ n ∈ ns, n < UInt64.size then some (ns.map UInt64.ofNat) else none := by
  induction ns with
  | nil => simp
  | cons n ns ih =>
    rw [mapM_word?_cons, ih, word?]
    by_cases hn : n < UInt64.size
    · by_cases hns : ∀ m ∈ ns, m < UInt64.size
      · have hall : ∀ m ∈ n :: ns, m < UInt64.size := List.forall_mem_cons.mpr ⟨hn, hns⟩
        rw [if_pos hn, if_pos hns, if_pos hall]
        rfl
      · have hall : ¬∀ m ∈ n :: ns, m < UInt64.size := fun h => hns (List.forall_mem_cons.mp h).2
        rw [if_pos hn, if_neg hns, if_neg hall]
        rfl
    · have hall : ¬∀ m ∈ n :: ns, m < UInt64.size := fun h => hn (List.forall_mem_cons.mp h).1
      rw [if_neg hn, if_neg hall]
      rfl

theorem word?_toNat (n : UInt64) : word? n.toNat = some n := by
  rw [word?, if_pos n.toNat_lt_size, UInt64.ofNat_toNat]

theorem mapM_word?_toNat (ws : List Word) : (ws.map UInt64.toNat).mapM word? = some ws := by
  induction ws with
  | nil => rfl
  | cons w ws ih =>
    rw [List.map_cons, mapM_word?_cons, ih, word?_toNat]
    rfl

theorem pair?_of_lt {bits : Nat} {elems : List Nat}
    (h : ∀ n ∈ bits :: elems, n < UInt64.size) :
    pair? bits elems = some ⟨UInt64.ofNat bits, (elems.map UInt64.ofNat).toArray⟩ := by
  obtain ⟨hbits, helems⟩ := List.forall_mem_cons.mp h
  rw [pair?, word?, if_pos hbits, mapM_word?, if_pos helems]
  rfl

theorem pair?_of_le {bits : Nat} {elems : List Nat}
    (h : ∃ n ∈ bits :: elems, UInt64.size ≤ n) : pair? bits elems = none := by
  obtain ⟨n, hn, hle⟩ := h
  rw [pair?, mapM_word?]
  rcases List.mem_cons.mp hn with rfl | hn
  · rw [word?, if_neg (Nat.not_lt_of_le hle)]
    rfl
  · rw [if_neg (fun hall => Nat.not_lt_of_le hle (hall n hn))]
    cases word? bits <;> rfl

/-! ## Lists of numbers -/

section

variable {tail : List Char} {ps qs : List (List Char)} {text : List Char}

/-- The lexemes of the numbers behind the first of a list, each with its comma. -/
def morePieces (ns : List Nat) : List (List Char) :=
  ns.flatMap fun n => [[','], Nat.toDigits 10 n]

theorem listPieces_cons (n : Nat) (ns : List Nat) :
    listPieces (n :: ns) = ['['] :: Nat.toDigits 10 n :: (morePieces ns ++ [[']']]) := by
  have hcommas : ((n :: ns).map (Nat.toDigits 10)).intersperse [','] =
      Nat.toDigits 10 n :: morePieces ns := by
    induction ns generalizing n with
    | nil => rfl
    | cons m ns ih =>
      rw [List.map_cons, List.map_cons, List.intersperse_cons_cons, ← List.map_cons, ih]
      rfl
  rw [listPieces, hcommas, List.cons_append]

/-- What stands behind a number of a list is a comma, or the closing bracket. -/
theorem exists_mark_morePieces (ns : List Nat) (ps : List (List Char)) :
    ∃ c x qs, Mark c x ∧ morePieces ns ++ [']'] :: ps = [c] :: qs := by
  cases ns with
  | nil => exact ⟨']', _, ps, mark_closeBracket, rfl⟩
  | cons n ns => exact ⟨',', _, _, mark_comma, rfl⟩

theorem moreWords_comma {c t : Token} (hc : c.lexeme = .comma) (ht : t.lexeme ≠ .closeBracket)
    (ts : List Token) :
    moreWords (c :: t :: ts) = ((t.natural .word).map (·, ts)).bind fun p =>
      (moreWords p.2).map fun q => (p.1 :: q.1, q.2) := by
  rw [moreWords.eq_def]
  simp only [hc]
  cases t.natural .word <;> rfl

theorem firstWords_cons {t : Token} (ht : t.lexeme ≠ .closeBracket) (ts : List Token) :
    firstWords (t :: ts) = ((t.natural .word).map (·, ts)).bind fun p =>
      (moreWords p.2).map fun q => (p.1 :: q.1, q.2) := by
  rw [firstWords]
  split
  · next h => exact absurd h ht
  · cases t.natural .word <;> rfl

theorem listForm_cons {t : Token} (ht : t.lexeme ≠ .closeBracket) (ts : List Token) :
    listForm (t :: ts) = ((t.natural .size).map (·, ts)).bind fun p =>
      (listWords p.2).bind fun q => (listEnd q.2).map fun rest => (⟨p.1, q.1.toArray⟩, rest) := by
  rw [listForm]
  split
  · next h => exact absurd h ht
  · cases t.natural .size <;> rfl

/-- The words of a list behind one of them. -/
theorem reads_moreWords (ns : List Nat) (h : Spaced tail (morePieces ns ++ [']'] :: ps) text) :
    Reads tail ps (moreWords (tokens text)) (ns.mapM word?) := by
  induction ns generalizing text with
  | nil =>
    obtain ⟨t, rest, ht, hrest, htext⟩ := h.mark mark_closeBracket
    rw [htext, moreWords.eq_def]
    simp only [ht]
    exact ⟨rest, hrest, rfl⟩
  | cons n ns ih =>
    -- what comes next is a mark in any case, so this number ends where it ends
    obtain ⟨d, x, qs, hd, hqs⟩ := exists_mark_morePieces ns ps
    rw [morePieces, List.flatMap_cons, ← morePieces, List.append_assoc, hqs] at h
    rw [hqs] at ih
    obtain ⟨c, rest, hc, hrest, htext⟩ := h.mark mark_comma
    obtain ⟨t, ts, hts, ht, hnumber⟩ := hrest.number hd
    rw [htext, hts, moreWords_comma hc ht, mapM_word?_cons]
    exact (hnumber .word).bind fun w rest hrest => (ih hrest).map (w :: ·)

/-- **A list of numbers is read as their words.** -/
theorem reads_words (ns : List Nat) (h : Spaced tail (listPieces ns ++ ps) text) :
    Reads tail ps (words (tokens text)) (ns.mapM word?) := by
  cases ns with
  | nil =>
    obtain ⟨b, rest, hb, hrest, htext⟩ := h.mark mark_openBracket
    obtain ⟨t, last, ht, hlast, hclose⟩ := hrest.mark mark_closeBracket
    rw [htext, hclose, words]
    simp only [hb, firstWords, ht]
    exact ⟨last, hlast, rfl⟩
  | cons n ns =>
    obtain ⟨d, x, qs, hd, hqs⟩ := exists_mark_morePieces ns ps
    rw [listPieces_cons, List.cons_append, List.cons_append, List.append_assoc,
      List.singleton_append, hqs] at h
    obtain ⟨b, rest, hb, hrest, htext⟩ := h.mark mark_openBracket
    obtain ⟨t, ts, hts, ht, hnumber⟩ := hrest.number hd
    rw [htext, words]
    simp only [hb]
    rw [hts, firstWords_cons ht, mapM_word?_cons]
    refine (hnumber .word).bind fun w behind hbehind => ?_
    rw [← hqs] at hbehind
    exact (reads_moreWords ns hbehind).map (w :: ·)

/-! ## Objects -/

theorem ofKey_key (field : Field) : Field.ofKey field.key = some field := by
  cases field <;> rfl

/-- A key leads to the value behind it, unless the field has been read before. -/
theorem keyed_key {got : Fields} {field : Field} (hnew : got.has field = false) {c : Token}
    (hc : c.lexeme = .colon) (ts : List Token) :
    keyed got field.key (c :: ts) = fieldValue got field ts := by
  rw [keyed, ofKey_key]
  simp only [hnew, colon, hc, Bool.false_eq_true, if_false]

theorem member_key {got : Fields} {field : Field} (hnew : got.has field = false) {k c : Token}
    (hk : k.lexeme = .string field.key) (hc : c.lexeme = .colon) (ts : List Token) :
    member got k (c :: ts) = fieldValue got field ts := by
  rw [member, hk]
  exact keyed_key hnew hc ts

theorem moreMembers_comma (got : Fields) {t k : Token} (ht : t.lexeme = .comma)
    (hk : k.lexeme ≠ .closeBrace) (ts : List Token) :
    moreMembers got (t :: k :: ts) =
      (member got k ts).bind fun p => moreMembers p.1 p.2 := by
  rw [moreMembers.eq_def]
  simp only [ht]
  split
  · next hmember =>
    rw [hmember]
    rfl
  · next hmember =>
    rw [hmember]
    rfl

theorem objectForm_cons {t : Token} (ht : t.lexeme ≠ .closeBrace) (ts : List Token) :
    objectForm (t :: ts) =
      (member ⟨none, none⟩ t ts).bind fun p => moreMembers p.1 p.2 := by
  rw [objectForm]
  split
  · next h => exact absurd h ht
  · rfl

/-- The first member of an object. -/
theorem objectForm_key {field : Field} {k c : Token} (hk : k.lexeme = .string field.key)
    (hc : c.lexeme = .colon) (ts : List Token) :
    objectForm (k :: c :: ts) =
      (fieldValue ⟨none, none⟩ field ts).bind fun p => moreMembers p.1 p.2 := by
  have hnew : Fields.has ⟨none, none⟩ field = false := by
    cases field <;> rfl
  rw [objectForm_cons (by simp [hk]), member_key hnew hk hc]

/-- A further member of an object. -/
theorem moreMembers_key {got : Fields} {field : Field} (hnew : got.has field = false)
    {t k c : Token} (ht : t.lexeme = .comma) (hk : k.lexeme = .string field.key)
    (hc : c.lexeme = .colon) (ts : List Token) :
    moreMembers got (t :: k :: c :: ts) =
      (fieldValue got field ts).bind fun p => moreMembers p.1 p.2 := by
  rw [moreMembers_comma got ht (by simp [hk]), member_key hnew hk hc]

namespace Spaced

variable {field : Field}

theorem key (h : Spaced tail (keyPieces field ++ ps) text) :
    ∃ k c rest, k.lexeme = .string field.key ∧ c.lexeme = .colon ∧ Spaced tail ps rest ∧
      tokens text = k :: c :: tokens rest := by
  obtain ⟨k, behind, hk, hbehind, htext⟩ := h.quoted (spells_key field)
  obtain ⟨c, rest, hc, hrest, hcolon⟩ := hbehind.mark mark_colon
  exact ⟨k, c, rest, hk, hc, hrest, by rw [htext, hcolon]⟩

/-- The first member of an object is read up to its value. -/
theorem objectForm (h : Spaced tail (keyPieces field ++ ps) text) :
    ∃ rest, Spaced tail ps rest ∧ objectForm (tokens text) =
      (fieldValue ⟨none, none⟩ field (tokens rest)).bind fun p => moreMembers p.1 p.2 := by
  obtain ⟨k, c, rest, hk, hc, hrest, htext⟩ := h.key
  exact ⟨rest, hrest, by rw [htext, objectForm_key hk hc]⟩

/-- So is a further member. -/
theorem moreMembers (got : Fields) (hnew : got.has field = false)
    (h : Spaced tail ([','] :: (keyPieces field ++ ps)) text) :
    ∃ rest, Spaced tail ps rest ∧ moreMembers got (tokens text) =
      (fieldValue got field (tokens rest)).bind fun p => moreMembers p.1 p.2 := by
  obtain ⟨t, behind, ht, hbehind, htext⟩ := h.mark mark_comma
  obtain ⟨k, c, rest, hk, hc, hrest, hkey⟩ := hbehind.key
  exact ⟨rest, hrest, by rw [htext, hkey, moreMembers_key hnew ht hk hc]⟩

end Spaced

section

variable {bits : Nat} {elems : List Nat} {β : Type} (got : Fields)
  {k : Fields × List Token → Attempt (β × List Token)}

theorem fieldValue_bits (t : Token) (ts : List Token) :
    fieldValue got .bits (t :: ts) =
      ((t.natural .size).map (·, ts)).map fun p => ({ got with bits := some p.1 }, p.2) := by
  rw [fieldValue]
  cases t.natural .size <;> rfl

theorem fieldValue_bits_bind (t : Token) (ts : List Token) :
    (fieldValue got .bits (t :: ts)).bind k =
      ((t.natural .size).map (·, ts)).bind fun p => k ({ got with bits := some p.1 }, p.2) := by
  rw [fieldValue_bits]
  cases t.natural .size <;> rfl

theorem fieldValue_elems_bind (ts : List Token) :
    (fieldValue got .elems ts).bind k =
      (words ts).bind fun p => k ({ got with elems := some p.1 }, p.2) := by
  rw [fieldValue]
  cases words ts <;> rfl

/-- The number of flags is read, and then the rest. -/
theorem reads_bits {c : Char} {x : Lexeme} (hc : Mark c x) {g : UInt64 → Option β}
    (h : Spaced tail (Nat.toDigits 10 bits :: [c] :: ps) text)
    (hk : ∀ n rest, Spaced tail ([c] :: ps) rest →
      Reads tail qs (k ({ got with bits := some n }, tokens rest)) (g n)) :
    Reads tail qs ((fieldValue got .bits (tokens text)).bind k) ((word? bits).bind g) := by
  obtain ⟨t, ts, hts, -, hnumber⟩ := h.number hc
  rw [hts, fieldValue_bits_bind]
  exact (hnumber .size).bind hk

/-- The words are read, and then the rest. -/
theorem reads_elems {g : List Word → Option β} (h : Spaced tail (listPieces elems ++ ps) text)
    (hk : ∀ ws rest, Spaced tail ps rest →
      Reads tail qs (k ({ got with elems := some ws }, tokens rest)) (g ws)) :
    Reads tail qs ((fieldValue got .elems (tokens text)).bind k) ((elems.mapM word?).bind g) := by
  rw [fieldValue_elems_bind]
  exact (reads_words elems h).bind hk

end

/-- With both of its members read, an object ends. -/
theorem reads_closeBrace (n : UInt64) (ws : List Word) (h : Spaced tail (['}'] :: ps) text) :
    Reads tail ps (moreMembers ⟨some n, some ws⟩ (tokens text)) (some ⟨n, ws.toArray⟩) := by
  obtain ⟨t, rest, ht, hrest, htext⟩ := h.mark mark_closeBrace
  rw [htext, moreMembers.eq_def]
  simp only [ht]
  exact ⟨rest, hrest, rfl⟩

/-- **The members of an object are read in either order.** -/
theorem reads_objectForm {bits : Nat} {elems : List Nat} (first : Field)
    (h : Spaced tail (memberPieces bits elems first ++ [','] ::
      (memberPieces bits elems first.other ++ ['}'] :: ps)) text) :
    Reads tail ps (objectForm (tokens text)) (pair? bits elems) := by
  simp only [memberPieces, List.append_assoc] at h
  obtain ⟨rest, hrest, hobject⟩ := h.objectForm
  rw [hobject]
  cases first with
  | bits =>
    refine reads_bits _ mark_comma hrest fun n behind hbehind => ?_
    obtain ⟨rest', hrest', hmember⟩ := hbehind.moreMembers ⟨some n, none⟩ rfl
    rw [hmember]
    exact reads_elems _ hrest' fun ws last hlast => reads_closeBrace n ws hlast
  | elems =>
    -- here the words come first, which makes no difference to whether all numbers fit
    rw [pair?, Option.bind_comm]
    refine reads_elems _ hrest fun ws behind hbehind => ?_
    obtain ⟨rest', hrest', hmember⟩ := hbehind.moreMembers ⟨none, some ws⟩ rfl
    rw [hmember]
    exact reads_bits _ mark_closeBrace hrest' fun n last hlast => reads_closeBrace n ws hlast

/-! ## Lists of two -/

theorem listWords_comma {c t : Token} (hc : c.lexeme = .comma) (ht : t.lexeme ≠ .closeBracket)
    (ts : List Token) : listWords (c :: t :: ts) = words (t :: ts) := by
  rw [listWords.eq_def]
  simp only [hc]

theorem reads_listWords (ns : List Nat) (h : Spaced tail ([','] :: (listPieces ns ++ ps)) text) :
    Reads tail ps (listWords (tokens text)) (ns.mapM word?) := by
  obtain ⟨c, behind, hc, hbehind, htext⟩ := h.mark mark_comma
  have hwords := reads_words ns hbehind
  -- the list is looked at once more, for not being a bracket that closes
  rw [listPieces, List.cons_append] at hbehind
  obtain ⟨t, rest, ht, -, hopen⟩ := hbehind.mark mark_openBracket
  rw [hopen] at hwords
  rw [htext, hopen, listWords_comma hc (by simp [ht])]
  exact hwords

theorem reads_listForm {bits : Nat} {elems : List Nat}
    (h : Spaced tail (Nat.toDigits 10 bits :: [','] :: (listPieces elems ++ [']'] :: ps)) text) :
    Reads tail ps (listForm (tokens text)) (pair? bits elems) := by
  obtain ⟨t, ts, hts, ht, hnumber⟩ := h.number mark_comma
  rw [hts, listForm_cons ht]
  refine (hnumber .size).bind fun n behind hbehind => ?_
  refine (reads_listWords elems hbehind).bind fun ws last hlast => ?_
  obtain ⟨b, rest, hb, hrest, hend⟩ := hlast.mark mark_closeBracket
  rw [hend, listEnd.eq_def]
  simp only [hb]
  exact ⟨rest, hrest, rfl⟩

/-! ## Either form -/

theorem optionalRecord_cons {t : Token} (ht : t.lexeme ≠ .null) (ts : List Token) :
    optionalRecord (t :: ts) = (record (t :: ts)).map fun p => (some p.1, p.2) := by
  rw [optionalRecord]
  split
  · next h => exact absurd h ht
  · rfl

/-- **A whole form is read as its numbers, however it is set out.** -/
theorem reads_record {layout : Layout} {bits : Nat} {elems : List Nat}
    (h : Spaced tail (layout.pieces bits elems) text) :
    Reads tail [] (record (tokens text)) (pair? bits elems) := by
  cases layout with
  | object first =>
    obtain ⟨t, rest, ht, hrest, htext⟩ := h.mark mark_openBrace
    rw [htext, record]
    simp only [ht]
    exact reads_objectForm first hrest
  | list =>
    obtain ⟨t, rest, ht, hrest, htext⟩ := h.mark mark_openBracket
    rw [htext, record]
    simp only [ht]
    exact reads_listForm hrest

end

end PackedBits.Json
