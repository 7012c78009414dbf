import Mathlib.Data.List.Induction
import Mathlib.Data.List.Nodup
import PackedBits.Proofs.Json.Members

/-!
# Complaints about keys

What comes of the members of an object depends on their keys alone, except for the values of the two
fields themselves. There is a complaint unless the keys are just those of the fields, each once, and
which one it is can be told from the keys (`Complaint`).

Members before the first that is refused have keys that are known and different (`Sound`). They are
all taken in, and the invariant for them is `Holds`: the fields that have been read are those among
the members.

## Main statements

* `exists_complaint` — there is a complaint unless the keys are those of the fields
* `exists_holds` — members with keys that are known and different are all taken in
* `outcome_of_complaint`, `outcome_of_perm` — what comes of members, from their keys
-/

namespace PackedBits.Json

/-! ## Keys -/

/-- Keys of fields, each of them once. -/
structure Sound (keys : List (List Char)) : Prop where
  nodup : keys.Nodup
  known : ∀ key ∈ keys, ∃ field : Field, field.key = key

/--
What there is to complain about: the first key that is unknown or was there before, and if there is
no such key, the first field that is missing.
-/
inductive Complaint : List (List Char) → Cause → Prop where
  | unknown {before : List (List Char)} (hsound : Sound before) {key : List Char}
      (hkey : ∀ field : Field, field.key ≠ key) (after : List (List Char)) :
      Complaint (before ++ key :: after) (.unknownField key)
  | repeated {before : List (List Char)} (hsound : Sound before) {field : Field}
      (hmem : field.key ∈ before) (after : List (List Char)) :
      Complaint (before ++ field.key :: after) (.duplicateField field)
  | missingBits {keys : List (List Char)} (hsound : Sound keys) (hbits : Field.bits.key ∉ keys) :
      Complaint keys (.missingField .bits)
  | missingElems {keys : List (List Char)} (hsound : Sound keys) (hbits : Field.bits.key ∈ keys)
      (helems : Field.elems.key ∉ keys) : Complaint keys (.missingField .elems)

theorem sound_nil : Sound [] := ⟨List.nodup_nil, nofun⟩

theorem sound_concat_iff {keys : List (List Char)} {key : List Char} :
    Sound (keys ++ [key]) ↔ Sound keys ∧ key ∉ keys ∧ ∃ field : Field, field.key = key := by
  constructor
  · intro h
    obtain ⟨hnodup, hknown⟩ := h
    rw [← List.concat_eq_append, List.nodup_concat] at hnodup
    refine ⟨⟨hnodup.2, fun k hk => hknown k (List.mem_append_left _ hk)⟩, hnodup.1, ?_⟩
    exact hknown key (List.mem_append_right _ (List.mem_singleton_self key))
  · rintro ⟨hsound, hnew, hknown⟩
    constructor
    · rw [← List.concat_eq_append, List.nodup_concat]
      exact ⟨hnew, hsound.nodup⟩
    · intro k hk
      obtain hk | hk := List.mem_append.mp hk
      · exact hsound.known k hk
      · exact List.mem_singleton.mp hk ▸ hknown

theorem key_bits_ne_elems : Field.bits.key ≠ Field.elems.key := by decide

/-- With both fields there and nothing to complain about, there are no other keys. -/
theorem Sound.perm {keys : List (List Char)} (h : Sound keys) (hbits : Field.bits.key ∈ keys)
    (helems : Field.elems.key ∈ keys) : keys.Perm [Field.bits.key, Field.elems.key] := by
  have hnodup : [Field.bits.key, Field.elems.key].Nodup := by decide
  refine (List.perm_ext_iff_of_nodup h.nodup hnodup).mpr fun key => ?_
  constructor
  · intro hmem
    obtain ⟨field, rfl⟩ := h.known key hmem
    cases field with
    | bits => exact List.mem_cons_self
    | elems => exact List.mem_cons_of_mem _ List.mem_cons_self
  · intro hmem
    rw [List.mem_cons, List.mem_singleton] at hmem
    obtain rfl | rfl := hmem
    · exact hbits
    · exact helems

theorem sound_of_perm {keys : List (List Char)}
    (h : keys.Perm [Field.bits.key, Field.elems.key]) : Sound keys := by
  refine ⟨h.nodup_iff.mpr (by decide), fun key hkey => ?_⟩
  have hmem := h.mem_iff.mp hkey
  rw [List.mem_cons, List.mem_singleton] at hmem
  obtain rfl | rfl := hmem
  · exact ⟨.bits, rfl⟩
  · exact ⟨.elems, rfl⟩

/-- Keys that are not sound have a first one to complain about. -/
theorem sound_or_exists_complaint (keys : List (List Char)) :
    Sound keys ∨ ∃ cause, ∀ after, Complaint (keys ++ after) cause := by
  -- keys are added at the end, so the first one to complain about stays the first
  induction keys using List.reverseRecOn with
  | nil => exact .inl sound_nil
  | append_singleton keys key ih =>
    obtain hsound | ⟨cause, hcause⟩ := ih
    · by_cases hknown : ∃ field : Field, field.key = key
      · by_cases hmem : key ∈ keys
        · obtain ⟨field, rfl⟩ := hknown
          refine .inr ⟨.duplicateField field, fun after => ?_⟩
          rw [List.append_assoc]
          exact .repeated hsound hmem after
        · exact .inl (sound_concat_iff.mpr ⟨hsound, hmem, hknown⟩)
      · refine .inr ⟨.unknownField key, fun after => ?_⟩
        rw [List.append_assoc]
        exact .unknown hsound (fun field hkey => hknown ⟨field, hkey⟩) after
    · refine .inr ⟨cause, fun after => ?_⟩
      rw [List.append_assoc]
      exact hcause _

/-- **Unless the keys are those of the two fields, there is a complaint.** -/
theorem exists_complaint {keys : List (List Char)}
    (h : ¬keys.Perm [Field.bits.key, Field.elems.key]) : ∃ cause, Complaint keys cause := by
  obtain hsound | ⟨cause, hcause⟩ := sound_or_exists_complaint keys
  · by_cases hbits : Field.bits.key ∈ keys
    · by_cases helems : Field.elems.key ∈ keys
      · exact absurd (hsound.perm hbits helems) h
      · exact ⟨_, .missingElems hsound hbits helems⟩
    · exact ⟨_, .missingBits hsound hbits⟩
  · have hall := hcause []
    rw [List.append_nil] at hall
    exact ⟨cause, hall⟩

/-! ## What comes of members -/

/-- The fields that have been read are those among the members. -/
structure Holds (es : List Entry) (got : Fields) : Prop where
  bits : ∀ n, got.bits = some n ↔ .bits n ∈ es
  elems : ∀ ws, got.elems = some ws ↔ .elems ws ∈ es

theorem Entry.key_eq_bits {e : Entry} : e.key = Field.bits.key ↔ ∃ n, e = .bits n := by
  cases e with
  | bits n => exact ⟨fun _ => ⟨n, rfl⟩, fun _ => rfl⟩
  | elems ws => exact ⟨fun h => absurd h.symm key_bits_ne_elems, nofun⟩
  | other key hkey value => exact ⟨fun h => absurd h.symm (hkey .bits), nofun⟩

theorem Entry.key_eq_elems {e : Entry} : e.key = Field.elems.key ↔ ∃ ws, e = .elems ws := by
  cases e with
  | bits n => exact ⟨fun h => absurd h key_bits_ne_elems, nofun⟩
  | elems ws => exact ⟨fun _ => ⟨ws, rfl⟩, fun _ => rfl⟩
  | other key hkey value => exact ⟨fun h => absurd h.symm (hkey .elems), nofun⟩

theorem bits_key_mem {es : List Entry} :
    Field.bits.key ∈ es.map Entry.key ↔ ∃ n, Entry.bits n ∈ es := by
  rw [List.mem_map]
  constructor
  · rintro ⟨e, he, hkey⟩
    obtain ⟨n, rfl⟩ := Entry.key_eq_bits.mp hkey
    exact ⟨n, he⟩
  · rintro ⟨n, hn⟩
    exact ⟨_, hn, rfl⟩

theorem elems_key_mem {es : List Entry} :
    Field.elems.key ∈ es.map Entry.key ↔ ∃ ws, Entry.elems ws ∈ es := by
  rw [List.mem_map]
  constructor
  · rintro ⟨e, he, hkey⟩
    obtain ⟨ws, rfl⟩ := Entry.key_eq_elems.mp hkey
    exact ⟨ws, he⟩
  · rintro ⟨ws, hws⟩
    exact ⟨_, hws, rfl⟩

theorem Holds.has_iff {es : List Entry} {got : Fields} (h : Holds es got) (field : Field) :
    got.has field = true ↔ field.key ∈ es.map Entry.key := by
  cases field with
  | bits =>
    rw [Fields.has, Option.isSome_iff_exists, bits_key_mem]
    exact exists_congr h.bits
  | elems =>
    rw [Fields.has, Option.isSome_iff_exists, elems_key_mem]
    exact exists_congr h.elems

theorem Holds.has_eq_false {es : List Entry} {got : Fields} (h : Holds es got) {field : Field}
    (hnew : field.key ∉ es.map Entry.key) : got.has field = false := by
  cases hseen : got.has field with
  | false => rfl
  | true => exact absurd ((h.has_iff field).mp hseen) hnew

/-- A member with a key that is known and new is taken in. -/
theorem Holds.add {es : List Entry} {got : Fields} (h : Holds es got) {e : Entry}
    (hnew : e.key ∉ es.map Entry.key) (hknown : ∃ field : Field, field.key = e.key) :
    ∃ got', got.add e = .ok got' ∧ Holds (es ++ [e]) got' := by
  cases e with
  | bits n =>
    refine ⟨{ got with bits := some n }, ?_, ⟨fun m => ?_, fun ws => ?_⟩⟩
    · have hfalse : got.has .bits = false := h.has_eq_false hnew
      rw [Fields.add, hfalse, if_neg Bool.false_ne_true]
    · have hnone : Entry.bits m ∉ es := fun hm => hnew (bits_key_mem.mpr ⟨m, hm⟩)
      simp [hnone, eq_comm]
    · simp [h.elems]
  | elems ws =>
    refine ⟨{ got with elems := some ws }, ?_, ⟨fun n => ?_, fun vs => ?_⟩⟩
    · have hfalse : got.has .elems = false := h.has_eq_false hnew
      rw [Fields.add, hfalse, if_neg Bool.false_ne_true]
    · simp [h.bits]
    · have hnone : Entry.elems vs ∉ es := fun hvs => hnew (elems_key_mem.mpr ⟨vs, hvs⟩)
      simp [hnone, eq_comm]
  | other key hkey value =>
    obtain ⟨field, hfield⟩ := hknown
    exact absurd hfield (hkey field)

/-- **Members with keys that are known and different are all taken in.** -/
theorem exists_holds {es : List Entry} (h : Sound (es.map Entry.key)) :
    ∃ got, es.foldlM Fields.add ⟨none, none⟩ = .ok got ∧ Holds es got := by
  -- the invariant is about the members so far, so they are added at the end
  induction es using List.reverseRecOn with
  | nil => exact ⟨⟨none, none⟩, rfl, ⟨by simp, by simp⟩⟩
  | append_singleton es e ih =>
    rw [List.map_append, List.map_singleton, sound_concat_iff] at h
    obtain ⟨hsound, hnew, hknown⟩ := h
    obtain ⟨got, hgot, hholds⟩ := ih hsound
    obtain ⟨got', hadd, hholds'⟩ := hholds.add hnew hknown
    refine ⟨got', ?_, hholds'⟩
    rw [List.foldlM_append, hgot]
    show (got.add e).bind _ = _
    rw [hadd]
    rfl

theorem outcome_of_taken {es : List Entry} {got : Fields}
    (hgot : es.foldlM Fields.add ⟨none, none⟩ = .ok got) : outcome es = got.finish := by
  rw [outcome, outcomeFrom, hgot]
  rfl

theorem finish_of_not_bits {got : Fields} (h : got.has .bits = false) :
    got.finish = .error (.missingField .bits) := by
  rw [Fields.has, Option.isSome_eq_false_iff, Option.isNone_iff_eq_none] at h
  rw [Fields.finish, Fields.complete, h]
  rfl

theorem finish_of_not_elems {got : Fields} {n : UInt64} (hn : got.bits = some n)
    (h : got.has .elems = false) : got.finish = .error (.missingField .elems) := by
  rw [Fields.has, Option.isSome_eq_false_iff, Option.isNone_iff_eq_none] at h
  rw [Fields.finish, Fields.complete, hn, h]
  rfl

theorem finish_of_some {got : Fields} {n : UInt64} {ws : List Word} (hn : got.bits = some n)
    (hws : got.elems = some ws) : got.finish = .ok ⟨n, ws.toArray⟩ := by
  rw [Fields.finish, Fields.complete, hn, hws]
  rfl

/-- A member that is refused decides, whatever comes behind it. -/
theorem outcome_of_refused {es : List Entry} {got : Fields} {e : Entry} {cause : Cause}
    (hgot : es.foldlM Fields.add ⟨none, none⟩ = .ok got) (he : got.add e = .error cause)
    (after : List Entry) : outcome (es ++ e :: after) = .error cause := by
  have hfold : (es ++ e :: after).foldlM Fields.add ⟨none, none⟩ = .error cause := by
    rw [List.foldlM_append, hgot]
    show (e :: after).foldlM Fields.add got = _
    rw [List.foldlM_cons, he]
    rfl
  rw [outcome, outcomeFrom, hfold]
  rfl

theorem add_of_has {got : Fields} {e : Entry} {field : Field} (hkey : e.key = field.key)
    (h : got.has field = true) : got.add e = .error (.duplicateField field) := by
  cases field with
  | bits =>
    obtain ⟨n, rfl⟩ := Entry.key_eq_bits.mp hkey
    rw [Fields.add, if_pos h]
  | elems =>
    obtain ⟨ws, rfl⟩ := Entry.key_eq_elems.mp hkey
    rw [Fields.add, if_pos h]

theorem add_of_unknown (got : Fields) {e : Entry} (hkey : ∀ field : Field, field.key ≠ e.key) :
    got.add e = .error (.unknownField e.key) := by
  cases e with
  | bits n => exact absurd rfl (hkey .bits)
  | elems ws => exact absurd rfl (hkey .elems)
  | other key hkey value => rfl

/-- **A complaint about the keys decides.** -/
theorem outcome_of_complaint {es : List Entry} {cause : Cause}
    (h : Complaint (es.map Entry.key) cause) : outcome es = .error cause := by
  generalize hkeys : es.map Entry.key = keys at h
  cases h with
  | unknown hsound hkey after =>
    obtain ⟨before, behind, rfl, rfl, hbehind⟩ := List.map_eq_append_iff.mp hkeys
    obtain ⟨e, after, rfl, rfl, rfl⟩ := List.map_eq_cons_iff.mp hbehind
    obtain ⟨got, hgot, -⟩ := exists_holds hsound
    exact outcome_of_refused hgot (add_of_unknown got hkey) after
  | repeated hsound hmem after =>
    obtain ⟨before, behind, rfl, rfl, hbehind⟩ := List.map_eq_append_iff.mp hkeys
    obtain ⟨e, after, rfl, hkey, rfl⟩ := List.map_eq_cons_iff.mp hbehind
    obtain ⟨got, hgot, hholds⟩ := exists_holds hsound
    exact outcome_of_refused hgot (add_of_has hkey ((hholds.has_iff _).mpr hmem)) after
  | missingBits hsound hbits =>
    subst hkeys
    obtain ⟨got, hgot, hholds⟩ := exists_holds hsound
    rw [outcome_of_taken hgot, finish_of_not_bits (hholds.has_eq_false hbits)]
  | missingElems hsound hbits helems =>
    subst hkeys
    obtain ⟨got, hgot, hholds⟩ := exists_holds hsound
    obtain ⟨n, hn⟩ := bits_key_mem.mp hbits
    rw [outcome_of_taken hgot,
      finish_of_not_elems ((hholds.bits n).mpr hn) (hholds.has_eq_false helems)]

/-- **The keys of both fields give a bitmap.** -/
theorem outcome_of_perm {es : List Entry}
    (h : (es.map Entry.key).Perm [Field.bits.key, Field.elems.key]) {n : UInt64} {ws : List Word}
    (hn : .bits n ∈ es) (hws : .elems ws ∈ es) : outcome es = .ok ⟨n, ws.toArray⟩ := by
  obtain ⟨got, hgot, hholds⟩ := exists_holds (sound_of_perm h)
  rw [outcome_of_taken hgot, finish_of_some ((hholds.bits n).mpr hn) ((hholds.elems ws).mpr hws)]

theorem exists_mem_of_perm {es : List Entry}
    (h : (es.map Entry.key).Perm [Field.bits.key, Field.elems.key]) :
    ∃ n ws, .bits n ∈ es ∧ .elems ws ∈ es := by
  obtain ⟨n, hn⟩ := bits_key_mem.mp (h.mem_iff.mpr List.mem_cons_self)
  obtain ⟨ws, hws⟩ := elems_key_mem.mp (h.mem_iff.mpr (List.mem_cons_of_mem _ List.mem_cons_self))
  exact ⟨n, ws, hn, hws⟩

end PackedBits.Json
