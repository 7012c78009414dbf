import PackedBits.Proofs.Session.Reachable

/-!
# What a run of writes leaves behind

Of all the writes to a flag only the last one counts, and a write out of range counts for nothing.
So a run is known by the last value of each flag (`lastValue`), and two runs that agree on these
leave the same words, whatever their lengths and their orders.

The induction is over the run, with the bitmap free: what a flag holds in the end is decided by the
writes behind the first one, and only if none of them is to this flag by the first one itself.

## Main statements

* `runWrites_fst` — the answers depend on the number of flags alone
* `test_runWrites` — every flag after a run
* `runWrites_congr` — runs with the same last values leave the same bitmap
* `write_history` — the same for the commands of a session
-/

namespace PackedBits

namespace Bitmap

/-! ## Last values -/

/-- The value of the last write to the flag of index `i`, if there is one. -/
def lastValue (ws : List Write) (i : UInt64) : Option Bool :=
  (ws.reverse.find? (·.index = i)).map Write.value

theorem lastValue_append (ws vs : List Write) (i : UInt64) :
    lastValue (ws ++ vs) i = (lastValue vs i).or (lastValue ws i) := by
  rw [lastValue, List.reverse_append, List.find?_append, Option.map_or]
  rfl

theorem lastValue_singleton (w : Write) (i : UInt64) :
    lastValue [w] i = if w.index = i then some w.value else none := by
  by_cases h : w.index = i
  · simp [lastValue, h]
  · simp [lastValue, h]

theorem lastValue_cons (w : Write) (ws : List Write) (i : UInt64) :
    lastValue (w :: ws) i =
      (lastValue ws i).or (if w.index = i then some w.value else none) := by
  rw [← List.singleton_append, lastValue_append, lastValue_singleton]

theorem lastValue_eq_none {ws : List Write} {i : UInt64} (h : ∀ w ∈ ws, w.index ≠ i) :
    lastValue ws i = none := by
  have hnone : ws.reverse.find? (·.index = i) = none :=
    List.find?_eq_none.mpr fun w hw => by simpa using h w (List.mem_reverse.mp hw)
  rw [lastValue, hnone, Option.map_none]

/-! ## Runs -/

/-- Every write is answered by whether its flag is there. -/
theorem runWrites_fst (a : Bitmap) (ws : List Write) :
    (a.runWrites ws).1 = ws.map fun w => decide (w.index < a.size) := by
  induction ws generalizing a with
  | nil => rfl
  | cons w rest ih =>
    rw [runWrites_cons, ih, size_set, set_fst, List.map_cons]
    simp only [UInt64.lt_iff_toNat_lt]

/-- A flag holds its last value, or what it held before if it has none. -/
theorem test_runWrites {a : Bitmap} (ha : a.WellFormed) (ws : List Write) {j : UInt64}
    (hj : j < a.size) : (a.runWrites ws).2.test j = (lastValue ws j).getD (a.test j) := by
  induction ws generalizing a with
  | nil => rfl
  | cons w rest ih =>
    have hrest := ih (set_wellFormed ha w.index w.value) (by rw [size_set]; exact hj)
    rw [test_set ha w.index w.value hj] at hrest
    rw [runWrites_cons, hrest, lastValue_cons, Option.getD_or]
    split
    · rfl
    · rfl

/-- Runs that agree on the last value of every flag leave the same bitmap. -/
theorem runWrites_congr {a : Bitmap} (ha : a.WellFormed) {ws vs : List Write}
    (h : ∀ j, j < a.size → lastValue ws j = lastValue vs j) :
    (a.runWrites ws).2 = (a.runWrites vs).2 := by
  apply ext_test (runWrites_wellFormed ha ws) (runWrites_wellFormed ha vs)
  · rw [size_runWrites, size_runWrites]
  · intro j
    by_cases hj : j < a.size
    · rw [test_runWrites ha ws hj, test_runWrites ha vs hj, h j hj]
    · rw [UInt64.lt_iff_toNat_lt, Nat.not_lt] at hj
      rw [test_of_le (by rw [size_runWrites]; exact hj),
        test_of_le (by rw [size_runWrites]; exact hj)]

end Bitmap

/-! ## Sessions -/

/-- The commands that make writes in a slot. -/
def Command.writes (name : String) (ws : List Bitmap.Write) : List Command :=
  ws.map fun c => .set name c.index c.value

namespace Session

/-- A write to a slot with a bitmap. -/
theorem step_set {w : Session} {name : String} {a : Bitmap} (ha : w.slot name = some a)
    (i : UInt64) (v : Bool) :
    w.step (.set name i v) =
      (.plain (.flag (a.set i v).1), w.put name (some (a.set i v).2)) := by
  simp only [step, ha, Slot.set]

/-- The commands make the run. -/
theorem run_writes {w : Session} {name : String} {a : Bitmap} (ha : w.slot name = some a)
    (ws : List Bitmap.Write) :
    w.run (Command.writes name ws) =
      ((a.runWrites ws).1.map fun found => .plain (.flag found),
        w.put name (some (a.runWrites ws).2)) := by
  induction ws generalizing w a with
  | nil => rw [Bitmap.runWrites, put_slot w ha]; rfl
  | cons c rest ih =>
    have hrest := ih (slot_put_self w name (some (a.set c.index c.value).2))
    rw [put_put] at hrest
    have hcommands : Command.writes name (c :: rest) =
        .set name c.index c.value :: Command.writes name rest := rfl
    rw [hcommands, run_cons, step_set ha, hrest, Bitmap.runWrites_cons]
    rfl

/--
**Of all writes to a flag the last one counts.**

A session that writes to a bitmap, any flags in any order, is told of each write whether its flag
is there. Then the bitmap has as many flags as before. A flag holds the value of the last write to
it, or what it held before if there was none, and beyond the last flag there is nothing to be read.
Runs that agree on the last value of every flag lead to the same session.
-/
theorem write_history {w : Session} (hw : Reachable w) {name : String} {a : Bitmap}
    (ha : w.slot name = some a) :
    (∀ ws : List Bitmap.Write, ∃ b : Bitmap,
      w.run (Command.writes name ws) =
        (ws.map fun c => .plain (.flag (decide (c.index < a.size))), w.put name (some b)) ∧
      b.size = a.size ∧
      (∀ j, j < a.size → b.test j = (Bitmap.lastValue ws j).getD (a.test j) ∧
        b.get? j = some (b.test j)) ∧
      (∀ j, a.size ≤ j → b.test j = false ∧ b.get? j = none)) ∧
    (∀ ws vs : List Bitmap.Write,
      (∀ j, j < a.size → Bitmap.lastValue ws j = Bitmap.lastValue vs j) →
      (a.runWrites ws).2.words = (a.runWrites vs).2.words ∧
      (w.run (Command.writes name ws)).2 = (w.run (Command.writes name vs)).2) := by
  have hwf : a.WellFormed := hw.wellFormed name a ha
  refine ⟨?_, ?_⟩
  · intro ws
    have hsize := Bitmap.size_runWrites a ws
    refine ⟨(a.runWrites ws).2, ?_, hsize, ?_, ?_⟩
    · rw [run_writes ha, Bitmap.runWrites_fst, List.map_map]
      rfl
    · intro j hj
      exact ⟨Bitmap.test_runWrites hwf ws hj, by rw [Bitmap.get?, hsize, if_pos hj]⟩
    · intro j hj
      rw [UInt64.le_iff_toNat_le] at hj
      refine ⟨Bitmap.test_of_le (by rw [hsize]; exact hj), ?_⟩
      rw [Bitmap.get?, hsize, if_neg (by rw [UInt64.lt_iff_toNat_lt]; omega)]
  · intro ws vs h
    have hsame := Bitmap.runWrites_congr hwf h
    rw [run_writes ha, run_writes ha, hsame]
    exact ⟨rfl, rfl⟩

/-- Seventy flags: one is set and cleared again, one is set, and one is not there. -/
theorem write_history_repeated :
    ∃ w : Session, Reachable w ∧ w.slot "s" = some (Bitmap.zeroed 70) ∧ ∃ b : Bitmap,
      w.run (Command.writes "s" [⟨64, true⟩, ⟨70, true⟩, ⟨64, false⟩, ⟨3, true⟩]) =
        ([true, false, true, true].map fun found => .plain (.flag found), w.put "s" (some b)) ∧
      b.test 64 = false ∧ b.test 3 = true ∧ b.get? 70 = none := by
  have hreach : Reachable (start.step (.create "s" 70)).2 := .step _ .start
  have hslot : (start.step (.create "s" 70)).2.slot "s" = some (Bitmap.zeroed 70) :=
    slot_put_self _ _ _
  obtain ⟨hwrites, -⟩ := write_history hreach hslot
  obtain ⟨b, hrun, -, hflags, hbeyond⟩ :=
    hwrites [⟨64, true⟩, ⟨70, true⟩, ⟨64, false⟩, ⟨3, true⟩]
  refine ⟨_, hreach, hslot, b, hrun, ?_, ?_, (hbeyond 70 (by decide)).2⟩
  · exact (hflags 64 (by decide)).1
  · exact (hflags 3 (by decide)).1

end Session

end PackedBits
