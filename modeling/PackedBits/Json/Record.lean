import PackedBits.Bitmap.Basic
import PackedBits.Json.Token

/-!
# Reading a bitmap from lexemes

A bitmap is written either as an object with the fields `bits` and `elems`, in any order and no
others, or as a list of the two in that order. Here this is read from a row of lexemes, and it is
not yet looked at whether the words fit the number of flags.

Faults are found in the order of the text, one lexeme after the other, and the first one counts. A
complaint about a field as a whole (unknown, repeated or missing) is reported for the place behind
the closing brace if that comes next, and else for the place of the next lexeme.

## Termination

`moreMembers` ends because a member takes up some lexemes (`member_length`).
-/

namespace PackedBits.Json

/-! ## Single values -/

namespace Token

/-- The fault of a lexeme where something else was expected. -/
def mistaken (t : Token) (expected : Expectation) : Fault :=
  match t.lexeme with
  | .null => ⟨.invalidType .null expected, t.stop⟩
  | .boolean b => ⟨.invalidType (.boolean b) expected, t.stop⟩
  | .number (.natural n) => ⟨.invalidType (.integer n.toNat) expected, t.stop⟩
  | .number (.negative n) => ⟨.invalidType (.integer (-n)) expected, t.stop⟩
  | .number (.real x) => ⟨.invalidType (.real x) expected, t.stop⟩
  | .string s => ⟨.invalidType (.string s) expected, t.stop⟩
  | .openBracket => ⟨.invalidType .list expected, t.start⟩
  | .openBrace => ⟨.invalidType .record expected, t.start⟩
  | .badString fault | .bad fault => fault
  | .closeBrace | .closeBracket | .comma | .colon | .stray => ⟨.expectedValue, t.glance⟩

/-- The unsigned 64-bit integer of a lexeme. -/
def natural (t : Token) (expected : Expectation) : Attempt UInt64 :=
  match t.lexeme with
  | .number (.natural n) => .ok n
  | .number (.negative n) => .error ⟨.negativeInteger n expected, t.stop⟩
  | _ => .error (t.mistaken expected)

end Token

/-! ## Lists -/

/-- The words of a list behind one of them, up to its closing bracket. -/
def moreWords : List Token → Attempt (List Word × List Token)
  | [] => .error ⟨.endInList, 0⟩
  | t :: ts =>
    match t.lexeme with
    | .closeBracket => .ok ([], ts)
    | .comma =>
      match ts with
      | [] => .error ⟨.endInValue, 0⟩
      | u :: us =>
        match u.lexeme with
        | .closeBracket => .error ⟨.trailingComma, u.glance⟩
        | _ => do
          let w ← u.natural .word
          let (ws, rest) ← moreWords us
          pure (w :: ws, rest)
    | _ => .error ⟨.expectedListComma, t.glance⟩

/-- The words of a list behind its opening bracket. -/
def firstWords : List Token → Attempt (List Word × List Token)
  | [] => .error ⟨.endInList, 0⟩
  | t :: ts =>
    match t.lexeme with
    | .closeBracket => .ok ([], ts)
    | _ => do
      let w ← t.natural .word
      let (ws, rest) ← moreWords ts
      pure (w :: ws, rest)

/-- A list of words. -/
def words : List Token → Attempt (List Word × List Token)
  | [] => .error ⟨.endInValue, 0⟩
  | t :: ts =>
    match t.lexeme with
    | .openBracket => firstWords ts
    | _ => .error (t.mistaken .list)

/-! ## The list form -/

/-- The end of the list form behind both of its elements. -/
def listEnd : List Token → Attempt (List Token)
  | [] => .error ⟨.endInList, 0⟩
  | t :: ts =>
    match t.lexeme with
    | .closeBracket => .ok ts
    | .comma =>
      match ts with
      | [] => .error ⟨.trailingCharacters, 0⟩
      | u :: _ =>
        match u.lexeme with
        | .closeBracket => .error ⟨.trailingComma, u.glance⟩
        | _ => .error ⟨.trailingCharacters, u.glance⟩
    | _ => .error ⟨.trailingCharacters, t.glance⟩

/-- The second element of the list form, behind the first. -/
def listWords : List Token → Attempt (List Word × List Token)
  | [] => .error ⟨.endInList, 0⟩
  | t :: ts =>
    match t.lexeme with
    | .closeBracket => .error ⟨.invalidLength 1, t.stop⟩
    | .comma =>
      match ts with
      | [] => .error ⟨.endInValue, 0⟩
      | u :: us =>
        match u.lexeme with
        | .closeBracket => .error ⟨.trailingComma, u.glance⟩
        | _ => words (u :: us)
    | _ => .error ⟨.expectedListComma, t.glance⟩

/-- The list form behind its opening bracket. -/
def listForm : List Token → Attempt (Bitmap × List Token)
  | [] => .error ⟨.endInList, 0⟩
  | t :: ts =>
    match t.lexeme with
    | .closeBracket => .error ⟨.invalidLength 0, t.stop⟩
    | _ => do
      let bits ← t.natural .size
      let (ws, rest) ← listWords ts
      let rest ← listEnd rest
      pure (⟨bits, ws.toArray⟩, rest)

/-! ## The object form -/

/-- The fields that have been read. -/
structure Fields where
  bits : Option UInt64 := none
  elems : Option (List Word) := none

/-- Whether a field has been read. -/
def Fields.has (got : Fields) : Field → Bool
  | .bits => got.bits.isSome
  | .elems => got.elems.isSome

/-- The field of a key. -/
def Field.ofKey (key : List Char) : Option Field :=
  if key = Field.bits.key then some .bits
  else if key = Field.elems.key then some .elems
  else none

/-- The place at which a complaint about a field is reported, given the lexemes that come next. -/
def complaintPlace : List Token → Nat
  | [] => 0
  | t :: _ =>
    match t.lexeme with
    | .closeBrace => t.stop
    | _ => t.start

/-- The lexemes behind a colon. -/
def colon : List Token → Attempt (List Token)
  | [] => .error ⟨.endInObject, 0⟩
  | t :: ts =>
    match t.lexeme with
    | .colon => .ok ts
    | _ => .error ⟨.expectedColon, t.glance⟩

/-- The value of a field that has not been read before. -/
def fieldValue (got : Fields) : Field → List Token → Attempt (Fields × List Token)
  | .bits, [] => .error ⟨.endInValue, 0⟩
  | .bits, t :: ts => (t.natural .size).map fun bits => ({ got with bits := some bits }, ts)
  | .elems, ts => (words ts).map fun (ws, rest) => ({ got with elems := some ws }, rest)

/-- A member with a key. -/
def keyed (got : Fields) (key : List Char) (ts : List Token) : Attempt (Fields × List Token) :=
  match Field.ofKey key with
  | none => .error ⟨.unknownField key, complaintPlace ts⟩
  | some field =>
    if got.has field then .error ⟨.duplicateField field, complaintPlace ts⟩
    else
      match colon ts with
      | .error f => .error f
      | .ok rest => fieldValue got field rest

/-- A member, of which `t` should be the key. -/
def member (got : Fields) (t : Token) (ts : List Token) : Attempt (Fields × List Token) :=
  match t.lexeme with
  | .string key => keyed got key ts
  | .badString fault => .error fault
  | _ => .error ⟨.expectedKey, t.glance⟩

/-- The bitmap of an object that ends at a place. No field may be missing. -/
def Fields.complete (got : Fields) (place : Nat) : Attempt Bitmap :=
  match got.bits, got.elems with
  | some bits, some ws => .ok ⟨bits, ws.toArray⟩
  | none, _ => .error ⟨.missingField .bits, place⟩
  | some _, none => .error ⟨.missingField .elems, place⟩

theorem moreWords_length {ts : List Token} : ∀ {r : List Word × List Token},
    moreWords ts = .ok r → r.2.length ≤ ts.length := by
  fun_induction moreWords ts with
  | case1 => intro r h; simp at h
  | case2 t ts ht =>
    intro r h
    rw [← Except.ok.inj h]
    exact Nat.le_succ _
  | case3 => intro r h; simp at h
  | case4 => intro r h; simp at h
  | case5 t ht u us hu ih =>
    intro r h
    simp only [bind, Except.bind] at h
    split at h
    · simp at h
    · split at h
      · simp at h
      · next p hp =>
        have hl := ih hp
        rw [← Except.ok.inj h]
        exact Nat.le_succ_of_le (Nat.le_succ_of_le hl)
  | case6 => intro r h; simp at h

theorem firstWords_length {ts : List Token} {r : List Word × List Token}
    (h : firstWords ts = .ok r) : r.2.length ≤ ts.length := by
  unfold firstWords at h
  split at h
  · simp at h
  · split at h
    · rw [← Except.ok.inj h]
      exact Nat.le_succ _
    · simp only [bind, Except.bind] at h
      split at h
      · simp at h
      · split at h
        · simp at h
        · next p hp =>
          have hl := moreWords_length hp
          rw [← Except.ok.inj h]
          exact Nat.le_succ_of_le hl

theorem words_length {ts : List Token} {r : List Word × List Token} (h : words ts = .ok r) :
    r.2.length ≤ ts.length := by
  unfold words at h
  split at h
  · simp at h
  · split at h
    · exact Nat.le_succ_of_le (firstWords_length h)
    · simp at h

theorem colon_length {ts r : List Token} (h : colon ts = .ok r) : r.length ≤ ts.length := by
  unfold colon at h
  split at h
  · simp at h
  · split at h
    · rw [← Except.ok.inj h]
      exact Nat.le_succ _
    · simp at h

theorem fieldValue_length {got : Fields} {field : Field} {ts : List Token}
    {r : Fields × List Token} (h : fieldValue got field ts = .ok r) :
    r.2.length ≤ ts.length := by
  unfold fieldValue at h
  split at h
  · simp at h
  · next t ts =>
    cases hn : t.natural .size with
    | error f => simp [hn, Except.map] at h
    | ok n =>
      rw [hn] at h
      rw [← Except.ok.inj h]
      exact Nat.le_succ _
  · cases hw : words ts with
    | error f => simp [hw, Except.map] at h
    | ok p =>
      rw [hw] at h
      rw [← Except.ok.inj h]
      exact words_length hw

theorem member_length {got : Fields} {t : Token} {ts : List Token} {r : Fields × List Token}
    (h : member got t ts = .ok r) : r.2.length ≤ ts.length := by
  unfold member keyed at h
  split at h
  · split at h
    · simp at h
    · split at h
      · simp at h
      · split at h
        · simp at h
        · next hc => exact Nat.le_trans (fieldValue_length h) (colon_length hc)
  · simp at h
  · simp at h

/-- The members of an object behind one of them, up to its closing brace. -/
def moreMembers (got : Fields) : List Token → Attempt (Bitmap × List Token)
  | [] => .error ⟨.endInObject, 0⟩
  | t :: ts =>
    match t.lexeme with
    | .closeBrace => (got.complete t.stop).map (·, ts)
    | .comma =>
      match ts with
      | [] => .error ⟨.endInValue, 0⟩
      | k :: rest =>
        match k.lexeme with
        | .closeBrace => .error ⟨.trailingComma, k.glance⟩
        | _ =>
          match _h : member got k rest with
          | .error f => .error f
          | .ok (got', rest') => moreMembers got' rest'
    | _ => .error ⟨.expectedObjectComma, t.glance⟩
termination_by ts => ts.length
decreasing_by
  have := member_length _h
  simp only [List.length_cons] at this ⊢
  omega

/-- The object form behind its opening brace. -/
def objectForm : List Token → Attempt (Bitmap × List Token)
  | [] => .error ⟨.endInObject, 0⟩
  | t :: ts =>
    match t.lexeme with
    | .closeBrace => (Fields.complete ⟨none, none⟩ t.stop).map (·, ts)
    | _ => do
      let (got, rest) ← member ⟨none, none⟩ t ts
      moreMembers got rest

/-! ## Either form -/

/-- A bitmap in either form, as it is written. -/
def record : List Token → Attempt (Bitmap × List Token)
  | [] => .error ⟨.endInValue, 0⟩
  | t :: ts =>
    match t.lexeme with
    | .openBracket => listForm ts
    | .openBrace => objectForm ts
    | _ => .error (t.mistaken .record)

/-- A bitmap in either form, or the name `null` for none. -/
def optionalRecord : List Token → Attempt (Option Bitmap × List Token)
  | [] => .error ⟨.endInValue, 0⟩
  | t :: ts =>
    match t.lexeme with
    | .null => .ok (none, ts)
    | _ => (record (t :: ts)).map fun (a, rest) => (some a, rest)

end PackedBits.Json
