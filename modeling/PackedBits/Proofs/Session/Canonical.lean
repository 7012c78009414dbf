import PackedBits.Proofs.Queries.Scan
import PackedBits.Proofs.Roundtrip.Json
import PackedBits.Proofs.Session.Reachable

/-!
# Equal bitmaps look equal from everywhere

Bitmaps are compared by their words. A well-formed bitmap has no other words than its flags ask for,
so two of them are equal just if they have the same flags, and it does not matter by which question
or in which form the flags are looked at. Each of these determines the bitmap for a reason of its
own: the list of set indices holds every flag that is set, the byte form drops only zeros, and the
other forms are read back.

How the bitmaps came about has no say in this, since everything in a reachable session is
well-formed.

## Main statements

* `eq_iff_test`, `eq_iff_trueIndices` — equality by questions
* `eq_iff_toBytes`, `eq_iff_toJson`, `eq_iff_toBinary` — equality by forms
* `canonical` — all of them for reachable sessions
-/

namespace PackedBits

namespace Bitmap

section

variable {a b : Bitmap} (ha : a.WellFormed) (hb : b.WellFormed)

include ha hb

/-- Bitmaps are equal if they have the same flags. -/
theorem eq_iff_test : a = b ↔ a.size = b.size ∧ ∀ i, a.test i = b.test i := by
  constructor
  · rintro rfl
    exact ⟨rfl, fun _ => rfl⟩
  · rintro ⟨hs, ht⟩
    exact ext_test ha hb hs ht

/-- Bitmaps are equal if the same indices are set. -/
theorem eq_iff_trueIndices : a = b ↔ a.size = b.size ∧ a.trueIndices = b.trueIndices := by
  rw [trueIndices_eq_iff ha hb, eq_iff_test ha hb]

/-- Bitmaps of one size are equal if they have the same byte form. -/
theorem eq_iff_toBytes : a = b ↔ a.size = b.size ∧ a.toBytes = b.toBytes := by
  constructor
  · rintro rfl
    exact ⟨rfl, rfl⟩
  · rintro ⟨hs, hbytes⟩
    rw [← packed_toBytes ha, ← packed_toBytes hb, hs, hbytes]

/-- Bitmaps are equal if they have the same binary form. -/
theorem eq_iff_toBinary : a = b ↔ a.toBinary = b.toBinary := by
  constructor
  · rintro rfl
    rfl
  · intro h
    exact ofBinary_prefixCode.unique ha hb (h ▸ List.prefix_rfl)

end

/-- Bitmaps are equal if they have the same JSON form. -/
theorem eq_iff_toJson {a b : Bitmap} : a = b ↔ a.toJson = b.toJson := by
  constructor
  · rintro rfl
    rfl
  · intro h
    exact Option.some.inj (optionToJson_injective h)

end Bitmap

namespace Session

/--
**A bitmap has one representation.**

Two bitmaps, each from a reachable session and however they came about, have the same words just if
they have the same size and the same flags, or the same size and the same set indices, or the same
size and the same bytes, or the same text in JSON, or the same binary form. Where both are in one
session, this is what it replies to the question whether they are equal.
-/
theorem canonical {w₁ w₂ : Session} (h₁ : Reachable w₁) (h₂ : Reachable w₂) {s₁ s₂ : String}
    {a b : Bitmap} (ha : w₁.slot s₁ = some a) (hb : w₂.slot s₂ = some b) :
    (a = b ↔ a.size = b.size ∧ a.words = b.words) ∧
    (a = b ↔ a.size = b.size ∧ ∀ i, a.test i = b.test i) ∧
    (a = b ↔ a.size = b.size ∧ a.trueIndices = b.trueIndices) ∧
    (a = b ↔ a.size = b.size ∧ a.toBytes = b.toBytes) ∧
    (a = b ↔ a.toJson = b.toJson) ∧
    (a = b ↔ a.toBinary = b.toBinary) ∧
    (∀ (w : Session) (s t : String), w.slot s = some a → w.slot t = some b →
      w.step (.equal s t) = (.plain (.flag (decide (a = b))), w)) := by
  have hwfa : a.WellFormed := h₁.wellFormed s₁ a ha
  have hwfb : b.WellFormed := h₂.wellFormed s₂ b hb
  refine ⟨?_, ?_, ?_, ?_, ?_, ?_, ?_⟩
  · rw [Bitmap.mk.injEq]
  · exact Bitmap.eq_iff_test hwfa hwfb
  · exact Bitmap.eq_iff_trueIndices hwfa hwfb
  · exact Bitmap.eq_iff_toBytes hwfa hwfb
  · exact Bitmap.eq_iff_toJson
  · exact Bitmap.eq_iff_toBinary hwfa hwfb
  · intro w s t hs ht
    simp only [step, ask, hs, ht, Option.some.injEq]

/-- A bitmap of seventy flags, and one that was cut down from a hundred. -/
theorem canonical_resized :
    ∃ w₁ w₂ : Session, Reachable w₁ ∧ Reachable w₂ ∧ ∃ a b : Bitmap,
      w₁.slot "a" = some a ∧ w₂.slot "b" = some b ∧ a = b ∧ a.toBinary = b.toBinary := by
  have h₁ := Reachable.start.run [.create "a" 70, .set "a" 3 true]
  have h₂ := Reachable.start.run
    [.create "c" 100, .set "c" 3 true, .set "c" 90 true, .copyBits "c" 70 "b"]
  have ha : (start.run [.create "a" 70, .set "a" 3 true]).2.slot "a" =
      some ((Bitmap.zeroed 70).set 3 true).2 := rfl
  have hb : (start.run
      [.create "c" 100, .set "c" 3 true, .set "c" 90 true, .copyBits "c" 70 "b"]).2.slot "b" =
        some ((((Bitmap.zeroed 100).set 3 true).2.set 90 true).2.resized 70) := rfl
  obtain ⟨-, -, hindices, -, -, hbinary, -⟩ := canonical h₁ h₂ ha hb
  have heq := hindices.mpr ⟨rfl, by decide⟩
  exact ⟨_, _, h₁, h₂, _, _, ha, hb, heq, hbinary.mp heq⟩

end Session

end PackedBits
