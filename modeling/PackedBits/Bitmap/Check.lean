import PackedBits.Event
import PackedBits.Bitmap.Padding

/-!
# Checking what was decoded

A decoder reads a number of flags and some words, which need not fit together. `check` accepts the
pair only if it is a well-formed bitmap (`mismatch?_eq_none_iff`). The number of words is looked at
first, because the last word can be judged only when it is the right one. A refusal leaves one
event.
-/

namespace PackedBits

/-- Why a number of flags and some words are no well-formed bitmap. -/
inductive Mismatch where
  /-- There are more or fewer words than the flags need. -/
  | wordCount (bits : UInt64) (expected actual : Nat)
  /-- A bit is set that keeps no flag. -/
  | padding (bits : UInt64)
  deriving DecidableEq

/-- What a mismatch is reported as. -/
def Mismatch.message : Mismatch → String
  | .wordCount bits expected actual =>
    s!"Invalid word count for {bits.toNat} bits: expected {expected}, got {actual}"
  | .padding bits => s!"Padding bits set beyond bit count {bits.toNat}"

theorem Mismatch.message_wordCount (bits : UInt64) (expected actual : Nat) :
    (wordCount bits expected actual).message =
      "Invalid word count for " ++ toString bits.toNat ++ " bits: expected " ++ toString expected ++
        ", got " ++ toString actual := rfl

theorem Mismatch.message_padding (bits : UInt64) :
    (padding bits).message = "Padding bits set beyond bit count " ++ toString bits.toNat := rfl

/-- The event that a refusal leaves. -/
def Mismatch.event : Mismatch → Event
  | .wordCount bits _ actual => .wordCountRejected bits actual
  | .padding bits => .paddingRejected bits

namespace Bitmap

/-- What keeps a bitmap from being well-formed, if anything does. -/
def mismatch? (a : Bitmap) : Option Mismatch :=
  let expected := (Word.countFor a.size).toNat
  if a.words.size ≠ expected then some (.wordCount a.size expected a.words.size)
  else if a.hasPadding then some (.padding a.size)
  else none

/-- Nothing is found wrong just with well-formed bitmaps. -/
theorem mismatch?_eq_none_iff (a : Bitmap) : a.mismatch? = none ↔ a.WellFormed := by
  by_cases hsize : a.words.size = (Word.countFor a.size).toNat
  · have hpad := hasPadding_eq_false_iff hsize
    by_cases hp : a.hasPadding = true
    · simp only [mismatch?, hsize, hp]
      constructor
      · intro h
        simp at h
      · intro h
        exact absurd (hpad.mpr h.bit_of_le) (by simp [hp])
    · rw [Bool.not_eq_true] at hp
      simp only [mismatch?, hsize, hp]
      exact ⟨fun _ => ⟨hsize, hpad.mp hp⟩, fun _ => by simp⟩
  · simp only [mismatch?, ne_eq, hsize]
    exact ⟨fun h => by simp at h, fun h => absurd h.size_words hsize⟩

/-- The bitmap itself if it is well-formed, and otherwise what is wrong with it. -/
def check (a : Bitmap) : Logged (Except Mismatch Bitmap) :=
  match a.mismatch? with
  | some m => ⟨.error m, [m.event]⟩
  | none => ⟨.ok a, []⟩

theorem check_of_wellFormed {a : Bitmap} (ha : a.WellFormed) : a.check = ⟨.ok a, []⟩ := by
  rw [check, (mismatch?_eq_none_iff a).mpr ha]

/-- A check that succeeds gives back what was checked, which is well-formed. -/
theorem value_check_eq_ok_iff {a b : Bitmap} :
    a.check.value = .ok b ↔ a = b ∧ a.WellFormed := by
  rw [← mismatch?_eq_none_iff, check]
  cases a.mismatch? with
  | none => simp
  | some m => simp

/-- The same check where there may be no bitmap at all, which is fine. -/
def checkOption : Option Bitmap → Logged (Except Mismatch (Option Bitmap))
  | none => ⟨.ok none, []⟩
  | some a => a.check.map (·.map some)

end Bitmap

end PackedBits
