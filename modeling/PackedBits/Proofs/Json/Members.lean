import PackedBits.Proofs.Json.Grammar

/-!
# Objects with any members

The members of an object are read one after the other, and the first that is not welcome ends it:
one with a key that is unknown, or one whose field has been read before. Only at the closing brace
is it asked whether a field is missing.

Here this is done with members as data (`Fields.add`, `outcome`), and a text is shown to be read as
if its members were taken in like that. Only the values of the two fields must fit. Other values are
not looked at, and need not even be values.

## Main statements

* `agrees_member` — one member is read as it is taken in
* `agrees_moreMembers` — so are all, up to the closing brace
* `agrees_record` — what is read of an object is what comes of its members
-/

namespace PackedBits.Json

/-! ## Members -/

/-- A member of an object. If it has the key of a field, its value is one for this field. -/
inductive Entry where
  | bits (n : UInt64)
  | elems (ws : List Word)
  /-- The value is made of any pieces. -/
  | other (key : List Char) (hkey : ∀ field : Field, field.key ≠ key) (value : List (List Char))

/-- The key of a member. -/
def Entry.key : Entry → List Char
  | .bits _ => Field.bits.key
  | .elems _ => Field.elems.key
  | .other key _ _ => key

/-- The pieces of the value of a member. -/
def Entry.value : Entry → List (List Char)
  | .bits n => [Nat.toDigits 10 n.toNat]
  | .elems ws => listPieces (ws.map UInt64.toNat)
  | .other _ _ value => value

/-- A member, and a way to write its key. -/
structure Member where
  entry : Entry
  spelling : List Char
  spells : Quoted.Spells entry.key spelling

/-- The pieces of a member. -/
def Member.pieces (m : Member) : List (List Char) := memberOf m.spelling m.entry.value

/-- Takes in one more member. -/
def Fields.add (got : Fields) : Entry → Except Cause Fields
  | .bits n =>
    if got.has .bits then .error (.duplicateField .bits) else .ok { got with bits := some n }
  | .elems ws =>
    if got.has .elems then .error (.duplicateField .elems) else .ok { got with elems := some ws }
  | .other key _ _ => .error (.unknownField key)

/-- The bitmap of the fields, of which none may be missing. -/
def Fields.finish (got : Fields) : Except Cause Bitmap := (got.complete 0).mapError Fault.cause

/-- What comes of members that are taken in behind others. -/
def outcomeFrom (got : Fields) (es : List Entry) : Except Cause Bitmap :=
  Except.bind (es.foldlM Fields.add got) Fields.finish

/-- What comes of the members of an object. -/
def outcome (es : List Entry) : Except Cause Bitmap := outcomeFrom ⟨none, none⟩ es

theorem outcomeFrom_cons (got : Fields) (e : Entry) (es : List Entry) :
    outcomeFrom got (e :: es) = (got.add e).bind fun got => outcomeFrom got es := by
  rw [outcomeFrom, List.foldlM_cons]
  cases got.add e <;> rfl

/-! ## Reading is taking in -/

section

variable {α β : Type} {c : Char} {x : Lexeme} {tail : List Char} {ps qs : List (List Char)}
  {text : List Char}

/-- An attempt fails for the cause that was foretold, or gives the value and leaves a text. -/
def Agrees (tail : List Char) (ps : List (List Char)) (answer : Except Cause α) :
    Attempt (α × List Token) → Prop :=
  Leaves (fun f => answer = .error f.cause) fun a rest => answer = .ok a ∧ Spaced tail ps rest

theorem Agrees.bind {answer : Except Cause α} {r : Attempt (α × List Token)}
    (h : Agrees tail ps answer r) {k : α × List Token → Attempt (β × List Token)}
    {g : α → Except Cause β}
    (hk : ∀ a rest, Spaced tail ps rest → Agrees tail qs (g a) (k (a, tokens rest))) :
    Agrees tail qs (answer.bind g) (r.bind k) := by
  cases r with
  | error f =>
    obtain rfl : answer = .error f.cause := h
    exact rfl
  | ok p =>
    obtain ⟨a, ts⟩ := p
    obtain ⟨rest, ⟨rfl, hrest⟩, rfl⟩ := h
    exact hk a rest hrest

theorem Agrees.exists_of_ok {a : α} {r : Attempt (α × List Token)}
    (h : Agrees tail ps (.ok a) r) : ∃ rest, Spaced tail ps rest ∧ r = .ok (a, tokens rest) := by
  cases r with
  | error f => cases h
  | ok p =>
    obtain ⟨b, ts⟩ := p
    obtain ⟨rest, ⟨hb, hrest⟩, rfl⟩ := h
    obtain rfl := Except.ok.inj hb
    exact ⟨rest, hrest, rfl⟩

theorem Agrees.exists_of_error {cause : Cause} {r : Attempt (α × List Token)}
    (h : Agrees tail ps (.error cause) r) : ∃ left, r = .error ⟨cause, left⟩ := by
  cases r with
  | error f =>
    obtain rfl := Except.error.inj h
    exact ⟨f.left, rfl⟩
  | ok p =>
    obtain ⟨rest, ⟨hb, -⟩, -⟩ := h
    cases hb

theorem Reads.agrees {a : α} {r : Attempt (α × List Token)} (h : Reads tail ps r (some a)) :
    Agrees tail ps (.ok a) r := by
  obtain ⟨rest, hrest, rfl⟩ := h
  exact ⟨rest, ⟨rfl, hrest⟩, rfl⟩

theorem keyed_of_has {got : Fields} {field : Field} (h : got.has field = true) (ts : List Token) :
    keyed got field.key ts = .error ⟨.duplicateField field, complaintPlace ts⟩ := by
  rw [keyed, ofKey_key]
  simp only [h, if_true]

theorem keyed_of_unknown {key : List Char} (hkey : ∀ field : Field, field.key ≠ key) (got : Fields)
    (ts : List Token) : keyed got key ts = .error ⟨.unknownField key, complaintPlace ts⟩ := by
  have hnone : Field.ofKey key = none := by
    rw [Field.ofKey, if_neg (hkey .bits).symm, if_neg (hkey .elems).symm]
  rw [keyed, hnone]

/-- The value of a field is looked at only if the field has not been read before. -/
theorem agrees_keyed {got got' : Fields} {field : Field} {u : Token} (hu : u.lexeme = .colon)
    {ts : List Token} (hvalue : Agrees tail ps (.ok got') (fieldValue got field ts)) :
    Agrees tail ps (if got.has field then .error (.duplicateField field) else .ok got')
      (keyed got field.key (u :: ts)) := by
  cases hseen : got.has field with
  | true =>
    rw [keyed_of_has hseen]
    exact rfl
  | false =>
    rw [keyed_key hseen hu]
    exact hvalue

/-- One member is read as it is taken in. -/
theorem agrees_member (got : Fields) (m : Member) (hc : Mark c x)
    (h : Spaced tail (m.pieces ++ [c] :: ps) text) :
    ∃ t ts, tokens text = t :: ts ∧ t.lexeme ≠ .closeBrace ∧
      Agrees tail ([c] :: ps) (got.add m.entry) (member got t ts) := by
  obtain ⟨e, spelling, spells⟩ := m
  obtain ⟨t, behind, ht, hbehind, htext⟩ := h.quoted spells
  obtain ⟨u, rest, hu, hrest, hcolon⟩ := hbehind.mark mark_colon
  refine ⟨t, _, htext, by simp [ht], ?_⟩
  rw [member, ht, hcolon]
  cases e with
  | bits n =>
    obtain ⟨d, ds, hds, -, hnumber⟩ := hrest.number hc
    refine agrees_keyed hu ?_
    have hreads := (hnumber .size).map fun n => ({ got with bits := some n } : Fields)
    rw [word?_toNat] at hreads
    rw [hds, fieldValue_bits]
    exact hreads.agrees
  | elems ws =>
    refine agrees_keyed hu ?_
    have hreads := (reads_words _ hrest).map fun ws => ({ got with elems := some ws } : Fields)
    rw [mapM_word?_toNat] at hreads
    exact hreads.agrees
  | other key hkey value =>
    show Agrees _ _ _ (keyed got key (u :: tokens rest))
    rw [keyed_of_unknown hkey]
    exact rfl

/-- At the closing brace, no field may be missing. -/
theorem agrees_complete (got : Fields) (place : Nat) {rest : List Char} (h : Spaced tail ps rest) :
    Agrees tail ps got.finish ((got.complete place).map (·, tokens rest)) := by
  obtain ⟨bits, elems⟩ := got
  cases bits with
  | none => exact rfl
  | some n =>
    cases elems with
    | none => exact rfl
    | some ws => exact ⟨rest, ⟨rfl, h⟩, rfl⟩

/-- Members are read as they are taken in, one after the other. -/
theorem agrees_moreMembers (ms : List Member) (got : Fields)
    (h : Spaced tail ((ms.map Member.pieces).flatMap ([','] :: ·) ++ ['}'] :: ps) text) :
    Agrees tail ps (outcomeFrom got (ms.map Member.entry)) (moreMembers got (tokens text)) := by
  induction ms generalizing got text with
  | nil =>
    obtain ⟨t, rest, ht, hrest, htext⟩ := h.mark mark_closeBrace
    rw [htext, moreMembers.eq_def]
    simp only [ht]
    exact agrees_complete got _ hrest
  | cons m ms ih =>
    -- a mark comes next in any case, so the value of this member ends where it ends
    obtain ⟨d, y, qs, hd, hqs⟩ := exists_mark_behind mark_closeBrace (ms.map Member.pieces) ps
    rw [List.map_cons, List.flatMap_cons, List.append_assoc, List.cons_append, hqs] at h
    rw [hqs] at ih
    obtain ⟨u, behind, hu, hbehind, htext⟩ := h.mark mark_comma
    obtain ⟨t, ts, hts, ht, hmember⟩ := agrees_member got m hd hbehind
    rw [htext, hts, moreMembers_comma got hu ht, List.map_cons, outcomeFrom_cons]
    exact hmember.bind fun got rest hrest => ih got hrest

/-- The members of an object behind its opening brace. -/
theorem agrees_objectForm (ms : List Member)
    (h : Spaced tail (separated (ms.map Member.pieces) ++ ['}'] :: ps) text) :
    Agrees tail ps (outcome (ms.map Member.entry)) (objectForm (tokens text)) := by
  cases ms with
  | nil =>
    obtain ⟨t, rest, ht, hrest, htext⟩ := h.mark mark_closeBrace
    rw [htext, objectForm]
    simp only [ht]
    exact agrees_complete ⟨none, none⟩ _ hrest
  | cons m ms =>
    obtain ⟨d, y, qs, hd, hqs⟩ := exists_mark_behind mark_closeBrace (ms.map Member.pieces) ps
    rw [List.map_cons, separated_cons, List.append_assoc, hqs] at h
    obtain ⟨t, ts, hts, ht, hmember⟩ := agrees_member ⟨none, none⟩ m hd h
    rw [hts, objectForm_cons ht, List.map_cons, outcome, outcomeFrom_cons]
    refine hmember.bind fun got rest hrest => ?_
    rw [← hqs] at hrest
    exact agrees_moreMembers ms got hrest

/-- **Reading an object is taking in its members.** -/
theorem agrees_record (ms : List Member)
    (h : Spaced tail (objectOf (ms.map Member.pieces)) text) :
    Agrees tail [] (outcome (ms.map Member.entry)) (record (tokens text)) := by
  obtain ⟨t, rest, ht, hrest, htext⟩ := h.mark mark_openBrace
  rw [htext, record]
  simp only [ht]
  exact agrees_objectForm ms hrest

end

end PackedBits.Json
