import PackedBits.Bitmap.Text

/-!
# The indented text without segments

The flags are written to segments, and at the end the segments are joined by an indent. Put flat,
every flag is followed by as many indents as its own index asks for.

What is written is looked at with an indent behind every finished segment (`Segments.flat`). With
that, a flag only ever adds to the end: the indent behind a segment that it finishes is the third
one after its character, and the other two open the next segment. Joining gives the same text unless
the last segment is empty and left out. Then the text behind the last joint is missing, but this
happens only if nothing was written at all or if the indent is empty (`Segments.indent_of_write`).

## Main statements

* `Segments.flat_write` — what writing a flag adds
* `Segments.intercalate_all` — joining the segments
* `body_eq_flatBody` — the text of all flags
-/

namespace PackedBits.Bitmap

/-- Joined chunks, of which the last is known: all others have the separator behind them. -/
theorem intercalate_concat {α : Type} (sep : List α) (chunks : List (List α)) (last : List α) :
    sep.intercalate (chunks ++ [last]) = chunks.flatMap (· ++ sep) ++ last := by
  induction chunks with
  | nil => simp
  | cons c rest ih =>
    rw [List.cons_append, List.intercalate_cons_of_ne_nil (by simp), ih, List.flatMap_cons,
      List.append_assoc (c ++ sep)]

/-- The text of a flag: its character and the indents behind it. -/
def flagText (indent : List Char) (i : Nat) (v : Bool) : List Char :=
  flagChar v :: (List.replicate (indentCount i) indent).flatten

namespace Segments

/-- What has been written, with an indent behind every finished segment. -/
def flat (indent : List Char) (s : Segments) : List Char :=
  s.finished.flatMap (· ++ indent) ++ s.current

/-- A flag adds its own text to what has been written. -/
theorem flat_write (indent : List Char) (s : Segments) (i : Nat) (v : Bool) :
    (s.write indent i v).flat indent = s.flat indent ++ flagText indent i v := by
  by_cases h10 : i % 10 = 9
  · by_cases h50 : i % 50 = 49
    · by_cases h100 : i % 100 = 99
      · simp [write, flat, flagText, indentCount, h10, h50, h100, List.replicate_succ]
      · simp [write, flat, flagText, indentCount, h10, h50, h100, List.replicate_succ]
    · have h100 : i % 100 ≠ 99 := by omega
      simp [write, flat, flagText, indentCount, h10, h50, h100]
  · have h50 : i % 50 ≠ 49 := by omega
    have h100 : i % 100 ≠ 99 := by omega
    simp [write, flat, flagText, indentCount, h10, h50, h100]

/-- Behind a flag there is something in the current segment, unless it ends one and is followed by
empty indents. -/
theorem indent_of_write {indent : List Char} {s : Segments} {i : Nat} {v : Bool}
    (h : (s.write indent i v).current = []) : indent = [] := by
  by_cases h100 : i % 100 = 99
  · have h10 : i % 10 = 9 := by omega
    have h50 : i % 50 = 49 := by omega
    simpa [write, h10, h50, h100] using h
  · by_cases h10 : i % 10 = 9
    · by_cases h50 : i % 50 = 49
      · simp [write, h10, h50, h100] at h
      · simp [write, h10, h50, h100] at h
    · have h50 : i % 50 ≠ 49 := by omega
      simp [write, h10, h50, h100] at h

/-- Joining loses nothing if a segment is left out only where no indent is missed. -/
theorem intercalate_all {indent : List Char} {s : Segments}
    (h : s.current = [] → s.finished = [] ∨ indent = []) :
    indent.intercalate s.all = s.flat indent := by
  obtain ⟨finished, current⟩ := s
  by_cases hcur : current = []
  · subst hcur
    have hall : all ⟨finished, []⟩ = finished := rfl
    rw [hall, flat, List.append_nil]
    rcases h rfl with hfin | rfl
    · simp only at hfin
      rw [hfin]
      rfl
    · rcases List.eq_nil_or_concat finished with rfl | ⟨chunks, last, rfl⟩
      · rfl
      · rw [List.concat_eq_append, intercalate_concat, List.flatMap_append]
        simp
  · rw [all, if_neg (by simpa using hcur), flat, intercalate_concat]

end Segments

/-- The segments with the flags up to index `n` written to them. -/
def written (indent : List Char) (flags : Nat → Bool) (n : Nat) : Segments :=
  (List.range n).foldl (fun s i => s.write indent i (flags i)) ⟨[], []⟩

theorem written_succ (indent : List Char) (flags : Nat → Bool) (n : Nat) :
    written indent flags (n + 1) = (written indent flags n).write indent n (flags n) := by
  rw [written, List.range_succ, List.foldl_append]
  rfl

theorem flat_written (indent : List Char) (flags : Nat → Bool) (n : Nat) :
    (written indent flags n).flat indent =
      (List.range n).flatMap fun i => flagText indent i (flags i) := by
  induction n with
  | zero => rfl
  | succ n ih =>
    rw [written_succ, Segments.flat_write, ih, List.range_succ, List.flatMap_append,
      List.flatMap_singleton]

theorem indent_of_written {indent : List Char} {flags : Nat → Bool} {n : Nat}
    (h : (written indent flags n).current = []) :
    (written indent flags n).finished = [] ∨ indent = [] := by
  cases n with
  | zero => exact .inl rfl
  | succ n =>
    rw [written_succ] at h
    exact .inr (Segments.indent_of_write h)

/-- **Segment by segment or flag by flag, the text is the same.** -/
theorem body_eq_flatBody (a : Bitmap) (indent : List Char) : a.body indent = a.flatBody indent := by
  have hjoin := Segments.intercalate_all
    (@indent_of_written indent (fun i => a.test (UInt64.ofNat i)) a.size.toNat)
  rw [flat_written] at hjoin
  exact hjoin

end PackedBits.Bitmap
