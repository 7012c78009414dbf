import PackedBits.Session
import PackedBits.Proofs.Roundtrip.Binary
import PackedBits.Proofs.Roundtrip.Bytes

/-!
# Reachable sessions

Every bitmap that a session can come to hold is well-formed: it has just enough words, and no bit is
set past the last flag. Questions and encodings rely on it without looking.

The proof is an induction over the way in which a session came about. A command stores either a
bitmap built from nothing, or one that a decoder has checked, or what an operation made of
well-formed ones; there is one lemma for each of these ways.

Commands that work on a bitmap where it is keep its shape (`Bitmap.shape`), whatever its content.

## Main statements

* `Reachable.wellFormed` — the invariant
* `exists_reachable_iff` — no stronger invariant holds
* `shape_step` — what commands in place leave alone
-/

namespace PackedBits

/-! ## What decoders give -/

namespace Bitmap

/-- What a text is decoded to has passed the check. -/
theorem check_of_value_decodeText {α : Type}
    {read : List Json.Token → Json.Attempt (α × List Json.Token)}
    {check : α → Logged (Except Mismatch α)} {text : List Char} {x : α}
    (h : (decodeText read check text).value = .ok x) : ∃ y, (check y).value = .ok x := by
  unfold decodeText at h
  split at h
  · cases h
  · next y rest hread =>
    rw [Logged.value_map] at h
    cases hc : (check y).value with
    | error m =>
      rw [hc] at h
      cases h
    | ok z =>
      rw [hc] at h
      cases rest with
      | nil =>
        cases h
        exact ⟨y, hc⟩
      | cons t rest => cases h

theorem ofJson_wellFormed {text : String} {a : Bitmap} (h : (ofJson text).value = .ok a) :
    a.WellFormed := by
  obtain ⟨b, hb⟩ := check_of_value_decodeText h
  obtain ⟨rfl, hwf⟩ := value_check_eq_ok_iff.mp hb
  exact hwf

theorem optionOfJson_wellFormed {text : String} {x : Slot}
    (h : (optionOfJson text).value = .ok x) : x.WellFormed := by
  obtain ⟨y, hy⟩ := check_of_value_decodeText h
  cases y with
  | none =>
    cases hy
    exact Slot.wellFormed_none
  | some b =>
    rw [checkOption, Logged.value_map, map_eq_ok_iff] at hy
    obtain ⟨c, hc, rfl⟩ := hy
    obtain ⟨rfl, hwf⟩ := value_check_eq_ok_iff.mp hc
    exact Slot.wellFormed_some.mpr hwf

theorem ofBinary_wellFormed {bytes : List UInt8} {a : Bitmap}
    (h : (ofBinary bytes).value = .ok a) : a.WellFormed :=
  ((ofBinary_prefixCode.accepts_iff bytes a).mp h).1

theorem optionOfBinary_wellFormed {bytes : List UInt8} {x : Slot}
    (h : (optionOfBinary bytes).value = .ok x) : x.WellFormed :=
  ((optionOfBinary_prefixCode.accepts_iff bytes x).mp h).1

/-! ## Writers at work -/

theorem Writers.step_wellFormed {s : Writers} (hs : s.bitmap.WellFormed) (n : Nat) :
    (s.step n).bitmap.WellFormed := by
  unfold Writers.step
  split
  · exact hs
  · split
    · exact hs
    · exact set_wellFormed hs _ _

theorem Writers.run_wellFormed {s : Writers} (hs : s.bitmap.WellFormed) (schedule : List Nat) :
    (s.run schedule).bitmap.WellFormed := by
  induction schedule generalizing s with
  | nil => exact hs
  | cons n rest ih => exact ih (Writers.step_wellFormed hs n)

end Bitmap

/-! ## Slots -/

namespace Slot

theorem create?_wellFormed (bits : UInt64) : WellFormed (Bitmap.create? bits) := by
  unfold Bitmap.create?
  split
  · exact wellFormed_none
  · exact wellFormed_some.mpr (Bitmap.zeroed_wellFormed bits)

theorem map_some_wellFormed {x : Except DecodeError Bitmap}
    (hx : ∀ a, x = .ok a → a.WellFormed) (content : Slot) (h : x.map some = .ok content) :
    content.WellFormed := by
  obtain ⟨a, rfl, rfl⟩ := map_eq_ok_iff.mp h
  exact wellFormed_some.mpr (hx a rfl)

theorem set_wellFormed {s : Slot} (hs : s.WellFormed) (i : UInt64) (v : Bool) :
    (s.set i v).2.WellFormed := by
  cases s with
  | none => exact wellFormed_none
  | some a => exact wellFormed_some.mpr (Bitmap.set_wellFormed (wellFormed_some.mp hs) i v)

theorem setAll_wellFormed {s : Slot} (hs : s.WellFormed) (v : Bool) (indices : List UInt64) :
    (s.setAll v indices).2.WellFormed := by
  induction indices generalizing s with
  | nil => exact hs
  | cons i rest ih => exact ih (set_wellFormed hs i v)

/-- The source of an update need not be well-formed: its words are masked. -/
theorem update_wellFormed {s : Slot} (hs : s.WellFormed) (src : Slot) :
    (s.update src).value.WellFormed := by
  cases s with
  | none => exact wellFormed_none
  | some a =>
    cases src with
    | none => exact hs
    | some b =>
      exact wellFormed_some.mpr
        (Bitmap.overwritten_wellFormed (wellFormed_some.mp hs).size_words b)

theorem copyBits_wellFormed (a : Bitmap) (bits : UInt64) :
    WellFormed (a.copyBits bits).value := by
  unfold Bitmap.copyBits
  split
  · exact wellFormed_none
  · exact wellFormed_some.mpr (Bitmap.resized_wellFormed a bits)

end Slot

/-! ## Steps -/

namespace Session

/-- Every bitmap of the session is well-formed. -/
def WellFormed (w : Session) : Prop := ∀ name, (w.slot name).WellFormed

theorem start_wellFormed : start.WellFormed := fun _ => Slot.wellFormed_none

theorem put_wellFormed {w : Session} (hw : w.WellFormed) (name : String) {content : Slot}
    (hc : content.WellFormed) : (w.put name content).WellFormed := by
  intro other
  by_cases h : other = name
  · rw [h, slot_put_self]
    exact hc
  · rw [slot_put_of_ne w content h]
    exact hw other

theorem decoded_wellFormed {w : Session} (hw : w.WellFormed) (dest : String)
    {x : Logged (Except DecodeError Slot)}
    (hx : ∀ content, x.value = .ok content → content.WellFormed) :
    (w.decoded dest x).2.WellFormed := by
  unfold decoded
  split
  · exact hw
  · next content hv => exact put_wellFormed hw dest (hx content hv)

/-- A command leaves well-formed bitmaps behind. -/
theorem step_wellFormed {w : Session} (hw : w.WellFormed) (c : Command) :
    (w.step c).2.WellFormed := by
  cases c with
  | create dest bits => exact put_wellFormed hw dest (Slot.create?_wellFormed bits)
  | createEmpty dest =>
    exact put_wellFormed hw dest (Slot.wellFormed_some.mpr (Bitmap.zeroed_wellFormed 0))
  | clear dest => exact put_wellFormed hw dest Slot.wellFormed_none
  | fromBytes dest bits bytes =>
    exact decoded_wellFormed hw dest
      (Slot.map_some_wellFormed fun _ => Bitmap.ofBytes_wellFormed)
  | fromJson dest text =>
    exact decoded_wellFormed hw dest
      (Slot.map_some_wellFormed fun _ => Bitmap.ofJson_wellFormed)
  | fromJsonOption dest text =>
    exact decoded_wellFormed hw dest fun _ => Bitmap.optionOfJson_wellFormed
  | fromBinary dest bytes =>
    exact decoded_wellFormed hw dest
      (Slot.map_some_wellFormed fun _ => Bitmap.ofBinary_wellFormed)
  | fromBinaryOption dest bytes =>
    exact decoded_wellFormed hw dest fun _ => Bitmap.optionOfBinary_wellFormed
  | set s i v => exact put_wellFormed hw s (Slot.set_wellFormed (hw s) i v)
  | setAll s indices v => exact put_wellFormed hw s (Slot.setAll_wellFormed (hw s) v indices)
  | fill s first limit step v =>
    exact put_wellFormed hw s (Slot.setAll_wellFormed (hw s) v _)
  | copy s dest => exact put_wellFormed hw dest (hw s)
  | update s src =>
    simp only [step]
    split
    · exact hw
    · exact put_wellFormed hw s (Slot.update_wellFormed (hw s) (w.slot src))
  | copyBits s bits dest =>
    simp only [step]
    split
    · exact hw
    · next a _ => exact put_wellFormed hw dest (Slot.copyBits_wellFormed a bits)
  | runJobs s jobs =>
    simp only [step]
    split
    · exact hw
    · next a ha =>
      exact put_wellFormed hw s
        (Slot.wellFormed_some.mpr (Bitmap.runJobs_wellFormed (hw s a ha) jobs))
  -- the other commands only ask
  | _ => exact hw

/-! ## Reachable sessions -/

/--
The sessions that can come about. Commands follow one another, and writers may share a bitmap: then
its slot may be looked at after any of their writes, in whatever order they go.
-/
inductive Reachable : Session → Prop
  | start : Reachable start
  | step {w : Session} (c : Command) : Reachable w → Reachable (w.step c).2
  | share {w : Session} {s : String} {a : Bitmap} (jobs : List (List Bitmap.Write))
      (schedule : List Nat) : Reachable w → w.slot s = some a →
      Reachable (w.put s (some ((Bitmap.Writers.start a jobs).run schedule).bitmap))

theorem Reachable.run {w : Session} (h : Reachable w) (cs : List Command) :
    Reachable (w.run cs).2 := by
  induction cs generalizing w with
  | nil => exact h
  | cons c rest ih => exact ih (.step c h)

/-- **Every bitmap of a reachable session is well-formed.** -/
theorem Reachable.wellFormed {w : Session} (h : Reachable w) : w.WellFormed := by
  induction h with
  | start => exact start_wellFormed
  | step c _ ih => exact step_wellFormed ih c
  | share jobs schedule _ ha ih =>
    exact put_wellFormed ih _
      (Slot.wellFormed_some.mpr (Bitmap.Writers.run_wellFormed (ih _ _ ha) schedule))

/-- The invariant is exact: any well-formed bitmap can be decoded from its binary form. -/
theorem exists_reachable_iff (a : Bitmap) :
    (∃ w s, Reachable w ∧ w.slot s = some a) ↔ a.WellFormed := by
  constructor
  · rintro ⟨w, s, h, ha⟩
    exact h.wellFormed s a ha
  · intro ha
    -- one command is enough, and the bytes it decodes are the bitmap's own
    have hdecoded : Bitmap.ofBinary a.toBinary = ⟨.ok a, []⟩ := by
      simpa using Bitmap.ofBinary_append ha []
    refine ⟨(start.step (.fromBinary "" a.toBinary)).2, "", .step _ .start, ?_⟩
    simp only [step, hdecoded]
    exact slot_put_self start "" (some a)

end Session

/-! ## Shapes -/

/-- The number of flags and the number of words. -/
def Bitmap.shape (a : Bitmap) : UInt64 × Nat := (a.size, a.words.size)

/-- The shape of the bitmap, if there is one. -/
def Slot.shape (s : Slot) : Option (UInt64 × Nat) := s.map Bitmap.shape

namespace Bitmap

@[simp] theorem shape_set (a : Bitmap) (i : UInt64) (v : Bool) : (a.set i v).2.shape = a.shape := by
  rw [shape, size_set, size_words_set, shape]

@[simp] theorem shape_overwritten (a src : Bitmap) : (a.overwritten src).shape = a.shape := by
  rw [shape, size_overwritten, size_words_overwritten, shape]

@[simp] theorem shape_runWrites (a : Bitmap) (ws : List Write) :
    (a.runWrites ws).2.shape = a.shape := by
  induction ws generalizing a with
  | nil => rfl
  | cons w rest ih =>
    rw [runWrites]
    exact (ih _).trans (shape_set a w.index w.value)

@[simp] theorem shape_runJobs (a : Bitmap) (jobs : List (List Write)) :
    (a.runJobs jobs).2.shape = a.shape := by
  induction jobs generalizing a with
  | nil => rfl
  | cons job rest ih =>
    rw [runJobs]
    exact (ih _).trans (shape_runWrites a job)

@[simp] theorem Writers.shape_step (s : Writers) (n : Nat) :
    (s.step n).bitmap.shape = s.bitmap.shape := by
  unfold Writers.step
  split
  · rfl
  · split
    · rfl
    · exact shape_set _ _ _

@[simp] theorem Writers.shape_run (s : Writers) (schedule : List Nat) :
    (s.run schedule).bitmap.shape = s.bitmap.shape := by
  induction schedule generalizing s with
  | nil => rfl
  | cons n rest ih => exact (ih _).trans (s.shape_step n)

end Bitmap

namespace Slot

@[simp] theorem shape_set (s : Slot) (i : UInt64) (v : Bool) : shape (s.set i v).2 = shape s := by
  cases s with
  | none => rfl
  | some a => exact congrArg some (Bitmap.shape_set a i v)

@[simp] theorem shape_setAll (s : Slot) (v : Bool) (indices : List UInt64) :
    shape (s.setAll v indices).2 = shape s := by
  induction indices generalizing s with
  | nil => rfl
  | cons i rest ih =>
    rw [setAll]
    exact (ih _).trans (shape_set s i v)

@[simp] theorem shape_update (s src : Slot) : shape (s.update src).value = shape s := by
  cases s with
  | none => rfl
  | some a =>
    cases src with
    | none => rfl
    | some b => exact congrArg some (Bitmap.shape_overwritten a b)

end Slot

/-- Whether a command works on a bitmap where it is. -/
def Command.inPlace : Command → Bool
  | set _ _ _ | setAll _ _ _ | fill _ _ _ _ _ | update _ _ | breakOff _ | runJobs _ _ => true
  | _ => false

namespace Session

theorem shape_slot_put {w : Session} {name : String} {content : Slot}
    (h : Slot.shape content = Slot.shape (w.slot name)) (other : String) :
    Slot.shape ((w.put name content).slot other) = Slot.shape (w.slot other) := by
  by_cases ho : other = name
  · rw [ho, slot_put_self, h]
  · rw [slot_put_of_ne w content ho]

/-- **A command in place keeps the shape of every bitmap.** -/
theorem shape_step (w : Session) {c : Command} (hc : c.inPlace = true) (name : String) :
    Slot.shape ((w.step c).2.slot name) = Slot.shape (w.slot name) := by
  cases c with
  | set s i v => exact shape_slot_put (Slot.shape_set _ i v) name
  | setAll s indices v => exact shape_slot_put (Slot.shape_setAll _ v indices) name
  | fill s first limit step v => exact shape_slot_put (Slot.shape_setAll _ v _) name
  | update s src =>
    simp only [step]
    split
    · rfl
    · exact shape_slot_put (Slot.shape_update _ _) name
  | breakOff s => rfl
  | runJobs s jobs =>
    simp only [step]
    split
    · rfl
    · next a ha =>
      refine shape_slot_put ?_ name
      rw [ha]
      exact congrArg some (Bitmap.shape_runJobs a jobs)
  | _ => cases hc

/--
**The representation invariant of whole runs.**

Any commands, one after the other, lead to a reachable session. In a reachable session every bitmap
has just as many words as its flags need, and every stored bit past its last flag is zero. Commands
in place keep the number of flags and the number of words of every bitmap, and so do writers that
share one, at each of their steps.
-/
theorem representation_invariant :
    (∀ cs : List Command, Reachable (start.run cs).2) ∧
    (∀ w : Session, Reachable w → ∀ (name : String) (a : Bitmap), w.slot name = some a →
      a.words.size = (a.size.toNat + 63) / 64 ∧ ∀ p, a.size.toNat ≤ p → a.bit p = false) ∧
    (∀ (w : Session) (c : Command), c.inPlace = true → ∀ name : String,
      Slot.shape ((w.step c).2.slot name) = Slot.shape (w.slot name)) ∧
    (∀ (a : Bitmap) (jobs : List (List Bitmap.Write)) (schedule : List Nat),
      ((Bitmap.Writers.start a jobs).run schedule).bitmap.shape = a.shape) := by
  refine ⟨?_, ?_, ?_, ?_⟩
  · intro cs
    exact Reachable.start.run cs
  · intro w hw name a ha
    have hwf : a.WellFormed := hw.wellFormed name a ha
    exact ⟨by rw [hwf.size_words, Word.toNat_countFor], hwf.bit_of_le⟩
  · intro w c hc name
    exact shape_step w hc name
  · intro a jobs schedule
    exact Bitmap.Writers.shape_run _ schedule

/-- Ten flags, overwritten with the words of seventy that are all set. -/
theorem representation_invariant_update :
    ∃ w : Session, Reachable w ∧
      (∃ a : Bitmap, w.slot "few" = some a ∧
        a.words.size = (a.size.toNat + 63) / 64 ∧ ∀ p, a.size.toNat ≤ p → a.bit p = false) ∧
      Slot.shape ((w.step (.update "few" "many")).2.slot "few") = some (10, 1) := by
  obtain ⟨hruns, hinvariant, hshape, -⟩ := representation_invariant
  have hreach := hruns [.create "few" 10, .create "many" 70, .fill "many" 0 70 1 true,
    .update "few" "many"]
  refine ⟨_, hreach, ⟨_, rfl, hinvariant _ hreach "few" _ rfl⟩, ?_⟩
  exact (hshape _ (.update "few" "many") rfl "few").trans rfl

end Session

end PackedBits
