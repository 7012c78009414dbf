import PackedBits.Proofs.Json.Layout
import PackedBits.Proofs.Json.Numeral

/-!
# Values of any kind

Where a reader expects a number or a list of words, there may be any value (`IsValue`). It need not
be looked at as a whole: what is not expected is refused for its first lexeme. If a value is
accepted, all of it has been read, and only that is needed to go on behind it.

So a list in the place of a bitmap is read value by value, and it is refused unless there are two.

## Main statements

* `IsValue.tokens` — the first lexeme of a value
* `Opens.leaves_natural`, `IsValue.leaves_words` — what is left behind a value
* `record_listOf` — a list that has not just two values
-/

namespace PackedBits.Json

/-! ## The grammar -/

/-- Pieces of several things, with commas between the things. -/
def separated (items : List (List (List Char))) : List (List Char) :=
  (items.intersperse [[',']]).flatten

/-- The pieces of a list. -/
def listOf (items : List (List (List Char))) : List (List Char) :=
  ['['] :: (separated items ++ [[']']])

/-- The pieces of a member, of which the key is written in a way. -/
def memberOf (spelling : List Char) (value : List (List Char)) : List (List Char) :=
  (['"'] ++ spelling ++ ['"']) :: [':'] :: value

/-- The pieces of an object. -/
def objectOf (members : List (List (List Char))) : List (List Char) :=
  ['{'] :: (separated members ++ [['}']])

/-- The pieces of a value of any kind. -/
inductive IsValue : List (List Char) → Prop where
  | null : IsValue [['n', 'u', 'l', 'l']]
  | true : IsValue [['t', 'r', 'u', 'e']]
  | false : IsValue [['f', 'a', 'l', 's', 'e']]
  | number {t : List Char} (ht : Number.IsNumeral t) : IsValue [t]
  | string {s t : List Char} (ht : Quoted.Spells s t) : IsValue [['"'] ++ t ++ ['"']]
  | list {items : List (List (List Char))} (hitems : ∀ item ∈ items, IsValue item) :
      IsValue (listOf items)
  | object {members : List (List Char × List (List Char))}
      (hkeys : ∀ m ∈ members, ∃ s, Quoted.Spells s m.1) (hvalues : ∀ m ∈ members, IsValue m.2) :
      IsValue (objectOf (members.map fun m => memberOf m.1 m.2))

theorem separated_cons (item : List (List Char)) (items : List (List (List Char))) :
    separated (item :: items) = item ++ items.flatMap ([','] :: ·) := by
  induction items generalizing item with
  | nil => simp [separated]
  | cons next items ih =>
    have hnext := ih next
    rw [separated] at hnext ⊢
    rw [List.intersperse_cons_cons, List.flatten_cons, List.flatten_cons, hnext, List.flatMap_cons]
    rfl

/-- A list of numbers is a list. -/
theorem listPieces_eq_listOf (ns : List Nat) :
    listPieces ns = listOf (ns.map fun n => [Nat.toDigits 10 n]) := by
  cases ns with
  | nil => rfl
  | cons n ns =>
    rw [listPieces_cons, List.map_cons, listOf, separated_cons, List.flatMap_map]
    rfl

theorem pieces_list (bits : Nat) (elems : List Nat) :
    Layout.list.pieces bits elems = listOf [[Nat.toDigits 10 bits], listPieces elems] := by
  simp [Layout.pieces, listOf, separated_cons]

theorem isValue_toDigits (n : Nat) : IsValue [Nat.toDigits 10 n] :=
  .number (Number.isNumeral_toDigits n)

theorem isValue_listPieces (ns : List Nat) : IsValue (listPieces ns) := by
  rw [listPieces_eq_listOf]
  refine .list fun item hitem => ?_
  obtain ⟨n, -, rfl⟩ := List.mem_map.mp hitem
  exact isValue_toDigits n

/-- What stands behind a thing is a comma, or the mark at the end. -/
theorem exists_mark_behind {c : Char} {x : Lexeme} (hc : Mark c x)
    (items : List (List (List Char))) (ps : List (List Char)) :
    ∃ d y qs, Mark d y ∧ items.flatMap ([','] :: ·) ++ [c] :: ps = [d] :: qs := by
  cases items with
  | nil => exact ⟨c, x, ps, hc, rfl⟩
  | cons item items => exact ⟨',', _, _, mark_comma, rfl⟩

section

variable {c : Char} {x : Lexeme} {tail : List Char} {ps v : List (List Char)} {text : List Char}

/-! ## The first lexeme -/

/-- Of a piece that is not blank, the first lexeme is known from its first character. -/
theorem Spaced.first {d : Char} {p : List Char} (hd : isBlank d = false)
    (h : Spaced tail ((d :: p) :: ps) text) :
    ∃ rest ts, Spaced tail ps rest ∧
      tokens text = ⟨(lex d (p ++ rest)).1, d :: (p ++ rest), (lex d (p ++ rest)).2⟩ :: ts := by
  cases h with
  | @piece gap hgap _ _ rest h =>
    rw [tokens_append_blanks hgap, List.cons_append, tokens_of_skipBlanks (skipBlanks_cons hd _)]
    exact ⟨rest, _, h, rfl⟩

/-- A number is bad, or everything up to its end is one lexeme. -/
theorem Spaced.numeral {t : List Char} (ht : Number.IsNumeral t) (hc : Mark c x)
    (h : Spaced tail (t :: [c] :: ps) text) :
    ∃ u us, tokens text = u :: us ∧ ((∃ f, u.lexeme = .bad f) ∨
      ∃ n rest, u.lexeme = .number n ∧ Spaced tail ([c] :: ps) rest ∧ us = tokens rest) := by
  cases h with
  | @piece gap hgap _ _ rest h =>
    have hends : Number.EndsBefore rest := h.endsBefore hc
    obtain ⟨d, ds, hd, hfirst⟩ := ht.exists_cons
    have htokens := tokens_number hfirst (ds ++ rest)
    rw [← List.cons_append, ← hd] at htokens
    rw [tokens_append_blanks hgap, htokens]
    cases hread : Number.read (t ++ rest) with
    | error f => exact ⟨_, _, rfl, .inl ⟨f, rfl⟩⟩
    | ok p =>
      obtain ⟨n, behind⟩ := p
      obtain rfl : behind = rest := Number.read_numeral ht hends hread
      exact ⟨_, _, rfl, .inr ⟨n, behind, rfl, h, rfl⟩⟩

/-- What can be the first lexeme of a value, and what follows it. -/
inductive Opens (tail : List Char) (ps v : List (List Char)) (ts : List Token) : Lexeme → Prop where
  | number (n : Number) {rest : List Char} (h : Spaced tail ps rest) (hts : ts = tokens rest) :
      Opens tail ps v ts (.number n)
  | list {items : List (List (List Char))} (hitems : ∀ item ∈ items, IsValue item)
      (hv : v = listOf items) : Opens tail ps v ts .openBracket
  | null : Opens tail ps v ts .null
  | boolean (b : Bool) : Opens tail ps v ts (.boolean b)
  | string (s : List Char) : Opens tail ps v ts (.string s)
  | object : Opens tail ps v ts .openBrace
  | bad (f : Fault) : Opens tail ps v ts (.bad f)

/-- **The first lexeme of a value.** -/
theorem IsValue.tokens (hv : IsValue v) (hc : Mark c x) (h : Spaced tail (v ++ [c] :: ps) text) :
    ∃ t ts, tokens text = t :: ts ∧ Opens tail ([c] :: ps) v ts t.lexeme := by
  cases hv with
  | null =>
    obtain ⟨rest, ts, -, htext⟩ := h.first rfl
    exact ⟨_, ts, htext, .null⟩
  | true =>
    obtain ⟨rest, ts, -, htext⟩ := h.first rfl
    exact ⟨_, ts, htext, .boolean _⟩
  | false =>
    obtain ⟨rest, ts, -, htext⟩ := h.first rfl
    exact ⟨_, ts, htext, .boolean _⟩
  | number ht =>
    obtain ⟨t, ts, htext, ⟨f, hf⟩ | ⟨n, rest, hn, hrest, hts⟩⟩ := h.numeral ht hc
    · exact ⟨t, ts, htext, hf ▸ .bad f⟩
    · exact ⟨t, ts, htext, hn ▸ .number n hrest hts⟩
  | string ht =>
    obtain ⟨t, rest, hs, -, htext⟩ := h.quoted ht
    exact ⟨t, _, htext, hs ▸ .string _⟩
  | list hitems =>
    obtain ⟨t, rest, hopen, -, htext⟩ := h.mark mark_openBracket
    exact ⟨t, _, htext, hopen ▸ .list hitems rfl⟩
  | object =>
    obtain ⟨t, rest, hopen, -, htext⟩ := h.mark mark_openBrace
    exact ⟨t, _, htext, hopen ▸ .object⟩

/-! ## Behind a value -/

/-- A value that is accepted as a number has been read to its end. -/
theorem Opens.leaves_natural {t : Token} {ts : List Token} (h : Opens tail ps v ts t.lexeme)
    (expected : Expectation) :
    Leaves (fun _ => True) (fun _ => Spaced tail ps) ((t.natural expected).map (·, ts)) := by
  unfold Token.natural
  generalize t.lexeme = y at h
  cases h with
  | number n h hts =>
    cases n with
    | natural n => exact ⟨_, h, hts⟩
    | negative n => trivial
    | real y => trivial
  | _ => trivial

theorem Opens.ne_closeBracket {y : Lexeme} {ts : List Token} (h : Opens tail ps v ts y) :
    y ≠ .closeBracket := by
  rintro rfl
  cases h

/-- The values of a list behind one of them. -/
theorem leaves_moreItems {items : List (List (List Char))} (hitems : ∀ item ∈ items, IsValue item)
    (h : Spaced tail (items.flatMap ([','] :: ·) ++ [']'] :: ps) text) :
    Leaves (fun _ => True) (fun _ => Spaced tail ps) (moreWords (tokens text)) := by
  induction items generalizing text with
  | nil =>
    obtain ⟨t, rest, ht, hrest, htext⟩ := h.mark mark_closeBracket
    rw [htext, moreWords.eq_def]
    simp only [ht]
    exact ⟨rest, hrest, rfl⟩
  | cons item items ih =>
    obtain ⟨hitem, hitems⟩ := List.forall_mem_cons.mp hitems
    obtain ⟨d, y, qs, hd, hqs⟩ := exists_mark_behind mark_closeBracket items ps
    rw [List.flatMap_cons, List.append_assoc, List.cons_append, hqs] at h
    rw [hqs] at ih
    obtain ⟨u, rest, hu, hrest, htext⟩ := h.mark mark_comma
    obtain ⟨t, ts, hts, hopens⟩ := hitem.tokens hd hrest
    rw [htext, hts, moreWords_comma hu hopens.ne_closeBracket]
    refine (hopens.leaves_natural .word).bind fun w behind hbehind => ?_
    exact (ih hitems hbehind).map (w :: ·) fun _ _ hlast => hlast

/-- The values of a list behind its opening bracket. -/
theorem leaves_items {items : List (List (List Char))} (hitems : ∀ item ∈ items, IsValue item)
    (h : Spaced tail (separated items ++ [']'] :: ps) text) :
    Leaves (fun _ => True) (fun _ => Spaced tail ps) (firstWords (tokens text)) := by
  cases items with
  | nil =>
    obtain ⟨t, rest, ht, hrest, htext⟩ := h.mark mark_closeBracket
    rw [htext, firstWords]
    simp only [ht]
    exact ⟨rest, hrest, rfl⟩
  | cons item items =>
    obtain ⟨hitem, hitems⟩ := List.forall_mem_cons.mp hitems
    obtain ⟨d, y, qs, hd, hqs⟩ := exists_mark_behind mark_closeBracket items ps
    rw [separated_cons, List.append_assoc, hqs] at h
    obtain ⟨t, ts, hts, hopens⟩ := hitem.tokens hd h
    rw [hts, firstWords_cons hopens.ne_closeBracket]
    refine (hopens.leaves_natural .word).bind fun w behind hbehind => ?_
    rw [← hqs] at hbehind
    exact (leaves_moreItems hitems hbehind).map (w :: ·) fun _ _ hlast => hlast

/-- **A value that is accepted as a list of words has been read to its end.** -/
theorem IsValue.leaves_words (hv : IsValue v) (hc : Mark c x)
    (h : Spaced tail (v ++ [c] :: ps) text) :
    Leaves (fun _ => True) (fun _ => Spaced tail ([c] :: ps)) (words (Json.tokens text)) := by
  obtain ⟨t, ts, htext, hopens⟩ := hv.tokens hc h
  by_cases hlist : t.lexeme = .openBracket
  · rw [hlist] at hopens
    cases hopens with
    | list hitems hv =>
      rw [hv, listOf, List.cons_append, List.append_assoc] at h
      obtain ⟨b, rest, hb, hrest, hopen⟩ := h.mark mark_openBracket
      rw [hopen, words]
      simp only [hb]
      exact leaves_items hitems hrest
  · rw [htext, words]
    split
    · next hopen => exact absurd hopen hlist
    · trivial

/-! ## Lists in the place of a bitmap -/

theorem exists_listEnd_comma {u : Token} (hu : u.lexeme = .comma) (ts : List Token) :
    ∃ f, listEnd (u :: ts) = .error f := by
  rw [listEnd.eq_def]
  simp only [hu]
  split
  · exact ⟨_, rfl⟩
  · split
    · exact ⟨_, rfl⟩
    · exact ⟨_, rfl⟩

/-- Behind the first value there must be just one more. -/
theorem leaves_listWords {items : List (List (List Char))} (hitems : ∀ item ∈ items, IsValue item)
    (hlength : items.length ≠ 1) (n : UInt64)
    (h : Spaced tail (items.flatMap ([','] :: ·) ++ [']'] :: ps) text) :
    Leaves (fun _ => True) (fun _ _ => False) ((listWords (tokens text)).bind fun q =>
      (listEnd q.2).map fun rest => ((⟨n, q.1.toArray⟩ : Bitmap), rest)) := by
  match items with
  | [] =>
    obtain ⟨t, rest, ht, -, htext⟩ := h.mark mark_closeBracket
    rw [htext, listWords.eq_def]
    simp only [ht]
    trivial
  | [_] => exact absurd rfl hlength
  | item :: next :: more =>
    rw [List.flatMap_cons, List.append_assoc] at h
    obtain ⟨u, behind, hu, hbehind, htext⟩ := h.mark mark_comma
    have hitem := hitems item List.mem_cons_self
    obtain ⟨t, ts, hts, hopens⟩ := hitem.tokens mark_comma hbehind
    rw [htext, hts, listWords_comma hu hopens.ne_closeBracket, ← hts]
    refine (hitem.leaves_words mark_comma hbehind).bind fun ws last hlast => ?_
    obtain ⟨b, rest, hb, -, hcomma⟩ := hlast.mark mark_comma
    obtain ⟨f, hend⟩ := exists_listEnd_comma hb (tokens rest)
    rw [hcomma, hend]
    trivial

/-- **A list is refused unless it has two values.** -/
theorem record_listOf {items : List (List (List Char))} (hitems : ∀ item ∈ items, IsValue item)
    (hlength : items.length ≠ 2) (h : Spaced tail (listOf items) text) :
    ∃ f, record (tokens text) = .error f := by
  obtain ⟨b, behind, hb, hbehind, htext⟩ := h.mark mark_openBracket
  have hleaves : Leaves (fun _ => True) (fun _ _ => False) (listForm (tokens behind)) := by
    cases items with
    | nil =>
      obtain ⟨t, rest, ht, -, hclose⟩ := hbehind.mark mark_closeBracket
      rw [hclose, listForm]
      simp only [ht]
      trivial
    | cons item items =>
      obtain ⟨hitem, hitems⟩ := List.forall_mem_cons.mp hitems
      obtain ⟨d, y, qs, hd, hqs⟩ := exists_mark_behind mark_closeBracket items []
      rw [separated_cons, List.append_assoc, hqs] at hbehind
      obtain ⟨t, ts, hts, hopens⟩ := hitem.tokens hd hbehind
      rw [hts, listForm_cons hopens.ne_closeBracket]
      refine (hopens.leaves_natural .size).bind fun n rest hrest => ?_
      rw [← hqs] at hrest
      exact leaves_listWords hitems (fun hone => hlength (congrArg (· + 1) hone)) n hrest
  obtain ⟨f, hf, -⟩ := hleaves.exists_error fun _ _ => id
  rw [htext, record]
  simp only [hb]
  exact ⟨f, hf⟩

end

end PackedBits.Json
