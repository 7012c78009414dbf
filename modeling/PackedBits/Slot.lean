import PackedBits.Bitmap.Bytes
import PackedBits.Bitmap.Query
import PackedBits.Bitmap.Pick
import PackedBits.Bitmap.Resize
import PackedBits.Bitmap.Text

/-!
# A bitmap or none

Asking for a bitmap without flags gives none, and whoever holds the answer can go on with it: a slot
without a bitmap behaves like a bitmap without flags.
-/

namespace PackedBits

/-- A place that may hold a bitmap. -/
abbrev Slot := Option Bitmap

namespace Slot

/-- The text of a slot without a bitmap. -/
def absentText : String := "nil-BitArray"

/-- A bitmap that is there is well-formed. -/
def WellFormed (s : Slot) : Prop := ∀ a, s = some a → a.WellFormed

/-- Number of flags. -/
def size (s : Slot) : UInt64 := s.elim 0 Bitmap.size

/-- The flag of index `i`; `false` if there is none. -/
def test (s : Slot) (i : UInt64) : Bool := s.elim false (·.test i)

/-- Makes the flag of index `i` be `v`, and says whether there is such a flag. -/
def set (s : Slot) (i : UInt64) (v : Bool) : Bool × Slot :=
  match s with
  | none => (false, none)
  | some a => ((a.set i v).1, some (a.set i v).2)

/-- Sets several flags in order, and says of each whether there is such a flag. -/
def setAll (s : Slot) (v : Bool) : List UInt64 → List Bool × Slot
  | [] => ([], s)
  | i :: rest =>
    let (found, s) := s.set i v
    let (answers, s) := s.setAll v rest
    (found :: answers, s)

/-- Whether no flag is set. -/
def isEmpty (s : Slot) : Bool := s.elim true Bitmap.isEmpty

/-- Whether every flag is set. -/
def isFull (s : Slot) : Bool := s.elim true Bitmap.isFull

/-- What is certain about a pick among the flags that are set. -/
def prospect (s : Slot) : Prospect := s.elim .nothing Bitmap.prospect

/-- The indices that may come up in `n` picks. -/
def eligible (s : Slot) (n : Nat) : List UInt64 := s.elim [] (·.eligible n)

/-- The byte form. -/
def toBytes (s : Slot) : List UInt8 := s.elim [] Bitmap.toBytes

/-- The indented text form. -/
def render (s : Slot) (indent : String) : String := s.elim absentText (·.render indent)

/-- The slot after an update from another. Nothing happens unless both hold a bitmap. -/
def update (s src : Slot) : Logged Slot :=
  match s, src with
  | some a, some b => (a.update b).map some
  | s, _ => ⟨s, []⟩

/-! ## Well-formed slots -/

@[simp] theorem wellFormed_none : WellFormed none := by
  intro a h
  cases h

@[simp] theorem wellFormed_some {a : Bitmap} : WellFormed (some a) ↔ a.WellFormed := by
  constructor
  · intro h
    exact h a rfl
  · intro h b hb
    cases hb
    exact h

end Slot

end PackedBits
