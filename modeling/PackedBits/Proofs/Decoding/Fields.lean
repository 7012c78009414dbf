import PackedBits.Proofs.Decoding.Layout
import PackedBits.Proofs.Json.Complaints

/-!
# No more and no fewer fields

An object is judged by the check if its keys are just those of the two fields, each once and in
either order. With any other keys it is refused before, and the complaint can be told from the keys:
what the values are makes no difference, and neither does how the keys are written. A list is judged
only if it has two values.

## Main statements

* `isChecked_of_outcome`, `isRefused_of_outcome` — from the members of an object to its verdict
* `not_isChecked_of_isRefused` — the two verdicts exclude each other
* `ofJson_fields` — the verdict, from the keys alone
-/

namespace PackedBits.Bitmap

open Json (Cause Complaint Entry Field IsValue Member Spaced)

/-- A text is read as a bitmap, and then only the check decides. -/
def IsChecked (text : String) (a : Bitmap) : Prop :=
  ofJson text = a.check.map (·.mapError fun m => .json (.mismatch m))

/-- A text is refused for a cause before anything is checked, so without an event. -/
def IsRefused (text : String) (cause : Cause) : Prop :=
  ∃ position, ofJson text = ⟨.error (.json (.unread cause position)), []⟩

theorem not_isChecked_of_isRefused {text : String} {cause : Cause} (h : IsRefused text cause)
    (a : Bitmap) : ¬IsChecked text a := by
  intro hchecked
  obtain ⟨position, hrefused⟩ := h
  rw [IsChecked, hrefused] at hchecked
  -- the check complains about a mismatch, if about anything
  have hverdict := congrArg Logged.value hchecked
  rw [Logged.value_map] at hverdict
  obtain ⟨m, -, hm⟩ := mapError_eq_error_iff.mp hverdict.symm
  cases hm

theorem isRefused_of_record {text : String} {f : Json.Fault}
    (h : Json.record (Json.tokens text.toList) = .error f) : IsRefused text f.cause := by
  refine ⟨.within text.toList f.left, ?_⟩
  rw [ofJson, decodeText, h]
  rfl

/-! ## Objects -/

section

variable {ms : List Member} {text : String}

theorem isChecked_of_outcome {a : Bitmap} (ha : Json.outcome (ms.map Member.entry) = .ok a)
    (h : Spaced [] (Json.objectOf (ms.map Member.pieces)) text.toList) : IsChecked text a := by
  have hagrees := Json.agrees_record ms h
  rw [ha] at hagrees
  obtain ⟨rest, hrest, hread⟩ := hagrees.exists_of_ok
  rw [Json.tokens_of_spaced hrest, Json.tokens_nil] at hread
  rw [IsChecked, ofJson, decodeText_eq_check check hread]

theorem isRefused_of_outcome {cause : Cause}
    (hcause : Json.outcome (ms.map Member.entry) = .error cause)
    (h : Spaced [] (Json.objectOf (ms.map Member.pieces)) text.toList) : IsRefused text cause := by
  have hagrees := Json.agrees_record ms h
  rw [hcause] at hagrees
  obtain ⟨left, hread⟩ := hagrees.exists_of_error
  exact isRefused_of_record hread

end

/-! ## The verdict -/

/--
**The fields must be there, each once, and there must be no others.**

An object has any members in any order, with any blanks between the lexemes. Keys are any texts,
written with or without escapes. A member with the key of a field has a value for this field, and
the values of other members are anything at all. Such an object gets as far as the check just if its
keys are those of the two fields, each once, in either order; then the pair of their values is
checked. Otherwise it is refused before, without an event, for the first key that is unknown or was
there before, and if there is no such key, for the first field that is missing. A list of any values
gets as far as the check only if there are two of them. Each refusal has its text.
-/
theorem ofJson_fields :
    (∀ (ms : List Member) (text : String),
      Spaced [] (Json.objectOf (ms.map Member.pieces)) text.toList →
      ((∃ a, IsChecked text a) ↔
        (ms.map (·.entry.key)).Perm [Field.bits.key, Field.elems.key]) ∧
      ((ms.map (·.entry.key)).Perm [Field.bits.key, Field.elems.key] →
        ∀ n ws, Entry.bits n ∈ ms.map Member.entry → Entry.elems ws ∈ ms.map Member.entry →
          IsChecked text ⟨n, ws.toArray⟩) ∧
      (¬(ms.map (·.entry.key)).Perm [Field.bits.key, Field.elems.key] →
        ∃ cause, Complaint (ms.map (·.entry.key)) cause ∧ IsRefused text cause) ∧
      (∀ cause, Complaint (ms.map (·.entry.key)) cause → IsRefused text cause)) ∧
    (∀ (items : List (List (List Char))) (text : String), (∀ item ∈ items, IsValue item) →
      Spaced [] (Json.listOf items) text.toList →
      ((∃ a, IsChecked text a) → items.length = 2) ∧
      (items.length ≠ 2 → ∃ cause, IsRefused text cause)) ∧
    (∀ (n : UInt64) (ws : List Word) (text : String),
      Spaced [] (Json.listOf [[Nat.toDigits 10 n.toNat], Json.listPieces (ws.map UInt64.toNat)])
        text.toList → IsChecked text ⟨n, ws.toArray⟩) ∧
    (∀ (cause : Cause) (position : Json.Position),
      (DecodeError.json (.unread cause position)).message = "JSON error: " ++ (cause.message ++
        s!" at line {position.line} column {position.column}")) ∧
    (∀ key, (Cause.unknownField key).message =
      "unknown field `" ++ String.ofList key ++ "`, expected `bits` or `elems`") ∧
    (∀ field : Field, (Cause.duplicateField field).message =
      "duplicate field `" ++ String.ofList field.key ++ "`") ∧
    (∀ field : Field, (Cause.missingField field).message =
      "missing field `" ++ String.ofList field.key ++ "`") := by
  refine ⟨?_, ?_, ?_, ?_, ?_, ?_, ?_⟩
  · intro ms text h
    have hkeys : ms.map (·.entry.key) = (ms.map Member.entry).map Entry.key := by
      rw [List.map_map]
      rfl
    rw [hkeys]
    have hchecked : ((ms.map Member.entry).map Entry.key).Perm [Field.bits.key, Field.elems.key] →
        ∀ n ws, Entry.bits n ∈ ms.map Member.entry → Entry.elems ws ∈ ms.map Member.entry →
          IsChecked text ⟨n, ws.toArray⟩ := fun hperm n ws hn hws =>
      isChecked_of_outcome (Json.outcome_of_perm hperm hn hws) h
    have hrefused : ∀ cause, Complaint ((ms.map Member.entry).map Entry.key) cause →
        IsRefused text cause := fun cause hcause =>
      isRefused_of_outcome (Json.outcome_of_complaint hcause) h
    refine ⟨⟨?_, ?_⟩, hchecked, ?_, hrefused⟩
    · rintro ⟨a, ha⟩
      by_contra hperm
      obtain ⟨cause, hcause⟩ := Json.exists_complaint hperm
      exact not_isChecked_of_isRefused (hrefused cause hcause) a ha
    · intro hperm
      obtain ⟨n, ws, hn, hws⟩ := Json.exists_mem_of_perm hperm
      exact ⟨_, hchecked hperm n ws hn hws⟩
    · intro hperm
      obtain ⟨cause, hcause⟩ := Json.exists_complaint hperm
      exact ⟨cause, hcause, hrefused cause hcause⟩
  · intro items text hitems h
    have hrefused : items.length ≠ 2 → ∃ cause, IsRefused text cause := by
      intro hlength
      obtain ⟨f, hf⟩ := Json.record_listOf hitems hlength h
      exact ⟨f.cause, isRefused_of_record hf⟩
    refine ⟨?_, hrefused⟩
    rintro ⟨a, ha⟩
    by_contra hlength
    obtain ⟨cause, hcause⟩ := hrefused hlength
    exact not_isChecked_of_isRefused hcause a ha
  · intro n ws text h
    have hpair : Json.pair? n.toNat (ws.map UInt64.toNat) = some ⟨n, ws.toArray⟩ :=
      pair?_toNat ⟨n, ws.toArray⟩
    have hlayout : Json.Layout.list.Renders n.toNat (ws.map UInt64.toNat) text := by
      rw [Json.Layout.Renders, Json.pieces_list]
      exact h
    exact ofJson_eq_check hpair hlayout
  · intro cause position
    exact DecodeError.message_unread cause position
  · intro key
    rfl
  · intro field
    rfl
  · intro field
    rfl

/--
A key with an escape, a field twice behind both of them, an unknown key before a field that is there
twice, a field that is missing, and a list of three.
-/
theorem ofJson_fields_two :
    ofJson "\x7b\"\\u0062its\" : 2,\"elems\":[3]\x7d" = ⟨.ok ⟨2, #[3]⟩, []⟩ ∧
    IsRefused "\x7b\"elems\":[3],\"bits\":2,\"elems\":[]\x7d" (.duplicateField .elems) ∧
    IsRefused "\x7b\"bits\":2,\"x\":null,\"bits\":2\x7d" (.unknownField ['x']) ∧
    IsRefused "\x7b\"elems\":[3]\x7d" (.missingField .bits) ∧
    ∃ cause, IsRefused "[2,[3],null]" cause := by
  obtain ⟨hobject, hlist, -⟩ := ofJson_fields
  have hb : Json.Quoted.Spelling 'b' ['\\', 'u', '0', '0', '6', '2'] := .unit ⟨rfl, by decide⟩
  have hbits : Json.Quoted.Spells Field.bits.key ['\\', 'u', '0', '0', '6', '2', 'i', 't', 's'] :=
    .cons hb (.of_plain ['i', 't', 's'] (by decide))
  have hx : ∀ field : Field, field.key ≠ ['x'] := fun field => by cases field <;> decide
  have hsound : ∀ field : Field, Json.Sound [field.key] := fun field =>
    Json.sound_concat_iff.mpr ⟨Json.sound_nil, List.not_mem_nil, field, rfl⟩
  have hwf : (⟨2, #[3]⟩ : Bitmap).WellFormed := (mismatch?_eq_none_iff _).mp (by decide)
  refine ⟨?_, ?_, ?_, ?_, ?_⟩
  · obtain ⟨-, hchecked, -⟩ := hobject
      [⟨.bits 2, _, hbits⟩, ⟨.elems [3], _, Json.spells_key .elems⟩]
      "\x7b\"\\u0062its\" : 2,\"elems\":[3]\x7d"
      (.of_gaps [[], [], [' '], [' '], [], [], [], [], [], [], []] [] rfl (by decide) rfl)
    have h := hchecked (.refl _) 2 [3] List.mem_cons_self
      (List.mem_cons_of_mem _ List.mem_cons_self)
    rwa [IsChecked, check_of_wellFormed hwf] at h
  · obtain ⟨-, -, -, hrefused⟩ := hobject
      [⟨.elems [3], _, Json.spells_key .elems⟩, ⟨.bits 2, _, Json.spells_key .bits⟩,
        ⟨.elems [], _, Json.spells_key .elems⟩]
      "\x7b\"elems\":[3],\"bits\":2,\"elems\":[]\x7d" (.of_flatten _ [])
    exact hrefused _ (.repeated (Json.sound_of_perm (.swap _ _ _)) List.mem_cons_self [])
  · obtain ⟨-, -, -, hrefused⟩ := hobject
      [⟨.bits 2, _, Json.spells_key .bits⟩,
        ⟨.other ['x'] hx [['n', 'u', 'l', 'l']], _, .of_plain ['x'] (by decide)⟩,
        ⟨.bits 2, _, Json.spells_key .bits⟩]
      "\x7b\"bits\":2,\"x\":null,\"bits\":2\x7d" (.of_flatten _ [])
    exact hrefused _ (.unknown (hsound .bits) hx [Field.bits.key])
  · obtain ⟨-, -, -, hrefused⟩ := hobject
      [⟨.elems [3], _, Json.spells_key .elems⟩] "\x7b\"elems\":[3]\x7d" (.of_flatten _ [])
    exact hrefused _ (.missingBits (hsound .elems) (by decide))
  · have hitems : ∀ item ∈ [[['2']], Json.listPieces [3], [['n', 'u', 'l', 'l']]],
        IsValue item := by
      simpa using ⟨Json.isValue_toDigits 2, Json.isValue_listPieces [3], .null⟩
    exact (hlist _ "[2,[3],null]" hitems (.of_flatten _ [])).2 (by decide)

end PackedBits.Bitmap
