import PackedBits.Proofs.Picks.Uniform

/-!
# No bitmap is as good as one without flags

A slot without a bitmap answers from constants, and one with a bitmap without flags goes through its
words, of which there are none. The outcome is the same: whoever does not ask in which form a slot
is written cannot tell the two apart.

A slot is compared with its filled form, in which the bitmap without flags takes the place of none.
Every lenient operation gives the same answer there and leaves the filled form of what it leaves
otherwise. Two sessions that differ by the two kinds of emptiness have the same filled form, so they
answer alike and go on differing by no more than that.

An update is the only operation for which this rests on the invariant: the words of a source without
flags replace none of the destination's, but its padding is cleared all the same.

## Main statements

* `Slot.update_filled`, `Bitmap.overwritten_empty` — updates
* `Session.step_filled`, `Session.value_step_filled` — one command
* `Session.Alike.run`, `Session.Alike.value_run` — any number of them
* `Bitmap.index_pick_eq_none_iff` — whether a pick finds a flag does not depend on chance
* `absent_like_empty` — all of it for reachable sessions
-/

namespace PackedBits

/-! ## Picks -/

/-- A pick comes to nothing just where no flag is set. -/
theorem Bitmap.index_pick_eq_none_iff (a : Bitmap) (draws : List UInt32) :
    (a.pick draws).index = none ↔ a.prospect = .nothing := by
  rw [pick, prospect]
  cases hindices : a.trueIndices with
  | nil => exact ⟨fun _ => rfl, fun _ => rfl⟩
  | cons i rest =>
    have hlt := Draw.choose_lt (k := (i :: rest).length) (Nat.succ_pos _) draws
    constructor
    · intro h
      exact absurd (List.getElem?_eq_none_iff.mp h) (Nat.not_le.mpr hlt)
    · intro h
      cases rest with
      | nil => cases h
      | cons j rest => cases h

/-! ## The bitmap without flags -/

namespace Bitmap

theorem empty_wellFormed : empty.WellFormed := zeroed_wellFormed 0

/-- There is only one well-formed bitmap without flags. -/
theorem WellFormed.eq_empty {a : Bitmap} (ha : a.WellFormed) (h : a.size = 0) : a = empty :=
  ext_test ha empty_wellFormed h fun i => by
    rw [test_of_le (by rw [h]; exact Nat.zero_le _), test_of_le (Nat.zero_le _)]

theorem words_empty : empty.words = #[] := rfl

theorem test_empty (i : UInt64) : empty.test i = false := test_of_le (Nat.zero_le _)

theorem set_empty (i : UInt64) (v : Bool) : empty.set i v = (false, empty) :=
  if_neg (by rw [UInt64.lt_iff_toNat_lt]; exact Nat.not_lt_zero _)

theorem empty_overwritten (src : Bitmap) : empty.overwritten src = empty :=
  (overwritten_wellFormed empty_wellFormed.size_words src).eq_empty rfl

/-- Without words there is nothing to overwrite with, and clear padding stays clear. -/
theorem overwritten_empty {a : Bitmap} (ha : a.WellFormed) : a.overwritten empty = a :=
  overwritten_eq_self ha fun _ hp _ => absurd hp (Nat.not_lt_zero _)

end Bitmap

/-! ## Filled slots -/

namespace Slot

/-- The slot with the bitmap without flags in the place of none. -/
def filled (x : Slot) : Slot := some (x.getD Bitmap.empty)

/-- Equal, or different by the two kinds of emptiness. -/
def Alike (x y : Slot) : Prop :=
  x = y ∨ (x = none ∧ ∃ a : Bitmap, y = some a ∧ a.size = 0) ∨
    ((∃ a : Bitmap, x = some a ∧ a.size = 0) ∧ y = none)

/-- Slots are alike if they have the same filled form. -/
theorem alike_iff {x y : Slot} (hx : x.WellFormed) (hy : y.WellFormed) :
    Alike x y ↔ x.filled = y.filled := by
  constructor
  · rintro (rfl | ⟨rfl, a, rfl, ha⟩ | ⟨⟨a, rfl, ha⟩, rfl⟩)
    · rfl
    · obtain rfl := (wellFormed_some.mp hy).eq_empty ha
      rfl
    · obtain rfl := (wellFormed_some.mp hx).eq_empty ha
      rfl
  · intro h
    cases x with
    | none =>
      cases y with
      | none => exact .inl rfl
      | some b =>
        obtain rfl : Bitmap.empty = b := Option.some.inj h
        exact .inr (.inl ⟨rfl, _, rfl, rfl⟩)
    | some a =>
      cases y with
      | none =>
        obtain rfl : a = Bitmap.empty := Option.some.inj h
        exact .inr (.inr ⟨⟨_, rfl, rfl⟩, rfl⟩)
      | some b => exact .inl h

@[simp] theorem size_filled (x : Slot) : x.filled.size = x.size := by
  cases x <;> rfl

@[simp] theorem test_filled (x : Slot) (i : UInt64) : x.filled.test i = x.test i := by
  cases x with
  | none => exact Bitmap.test_empty i
  | some a => rfl

@[simp] theorem isEmpty_filled (x : Slot) : x.filled.isEmpty = x.isEmpty := by
  cases x with
  | none =>
    show Bitmap.empty.isEmpty = true
    rw [Bitmap.isEmpty, Bitmap.words_empty, Array.all_empty]
  | some a => rfl

@[simp] theorem isFull_filled (x : Slot) : x.filled.isFull = x.isFull := by
  cases x <;> rfl

@[simp] theorem toBytes_filled (x : Slot) : x.filled.toBytes = x.toBytes := by
  cases x <;> rfl

@[simp] theorem prospect_filled (x : Slot) : x.filled.prospect = x.prospect := by
  cases x <;> rfl

@[simp] theorem eligible_filled (x : Slot) (n : Nat) : x.filled.eligible n = x.eligible n := by
  cases x with
  | none => exact ite_self _
  | some a => rfl

@[simp] theorem set_filled (x : Slot) (i : UInt64) (v : Bool) :
    x.filled.set i v = ((x.set i v).1, (x.set i v).2.filled) := by
  cases x with
  | none =>
    have hset := Bitmap.set_empty i v
    simp only [filled, set, Option.getD_none, hset]
  | some a => rfl

@[simp] theorem setAll_filled (x : Slot) (v : Bool) (indices : List UInt64) :
    x.filled.setAll v indices = ((x.setAll v indices).1, (x.setAll v indices).2.filled) := by
  induction indices generalizing x with
  | nil => rfl
  | cons i rest ih => simp only [setAll, set_filled, ih]

/-- An update to and from filled slots leaves the filled form of what it leaves otherwise. -/
theorem update_filled {x : Slot} (hx : x.WellFormed) (y : Slot) :
    (x.filled.update y.filled).value = (x.update y).value.filled := by
  cases x with
  | none =>
    cases y with
    | none => exact congrArg some (Bitmap.empty_overwritten Bitmap.empty)
    | some b => exact congrArg some (Bitmap.empty_overwritten b)
  | some a =>
    cases y with
    -- against nothing no update takes place, but against no flags the padding is cleared
    | none => exact congrArg some (Bitmap.overwritten_empty (wellFormed_some.mp hx))
    | some b => rfl

end Slot

/-! ## Lenient commands -/

namespace Command

/-- Whether a command is for any slot and does not show whether there is a bitmap in it. -/
def isLenient : Command → Bool
  | size _ | test _ _ | set _ _ _ | setAll _ _ _ | fill _ _ _ _ _ | isEmpty _ | isFull _
  | toBytes _ | copy _ _ | update _ _ | pickAny _ | pickOften _ _ => true
  | _ => false

/-- The reply to a copy says whether there is one. -/
def isCopy : Command → Bool
  | copy _ _ => true
  | _ => false

end Command

namespace Session

/-- The session with every slot filled. -/
def filled (w : Session) : Session := ⟨fun s => (w.slot s).filled⟩

theorem filled_put (w : Session) (s : String) (x : Slot) :
    (w.put s x).filled = w.filled.put s x.filled := by
  refine congrArg Session.mk (funext fun other => ?_)
  by_cases h : other = s
  · simp [put, h]
  · simp [put, h, filled]

/-- A lenient command leads from the filled form to the filled form. -/
theorem step_filled {w : Session} (hw : w.WellFormed) {c : Command} (hc : c.isLenient = true) :
    (w.step c).2.filled = (w.filled.step c).2 := by
  have hslot : ∀ s, w.filled.slot s = (w.slot s).filled := fun _ => rfl
  cases c with
  | set s i v => simp only [step, filled_put, hslot, Slot.set_filled]
  | setAll s indices v => simp only [step, filled_put, hslot, Slot.setAll_filled]
  | fill s first limit step' v => simp only [step, filled_put, hslot, Slot.setAll_filled]
  | copy s dest => exact filled_put w dest (w.slot s)
  | update s src =>
    simp only [step]
    split
    · rfl
    · rw [filled_put, hslot, hslot, Slot.update_filled (hw s)]
  | size s => rfl
  | test s i => rfl
  | isEmpty s => rfl
  | isFull s => rfl
  | toBytes s => rfl
  | pickAny s => rfl
  | pickOften s n => rfl
  | _ => cases hc

/-- A lenient command other than a copy is answered alike in the filled form. -/
theorem value_step_filled (w : Session) {c : Command} (hc : c.isLenient = true)
    (hcopy : c.isCopy = false) : (w.filled.step c).1.value = (w.step c).1.value := by
  have hslot : ∀ s, w.filled.slot s = (w.slot s).filled := fun _ => rfl
  cases c with
  | size s => simp only [step, ask, hslot, Slot.size_filled]
  | test s i => simp only [step, ask, hslot, Slot.test_filled]
  | set s i v => simp only [step, hslot, Slot.set_filled]
  | setAll s indices v => simp only [step, hslot, Slot.setAll_filled]
  | fill s first limit step' v => simp only [step, hslot, Slot.setAll_filled]
  | isEmpty s => simp only [step, ask, hslot, Slot.isEmpty_filled]
  | isFull s => simp only [step, ask, hslot, Slot.isFull_filled]
  | toBytes s => simp only [step, ask, hslot, Slot.toBytes_filled]
  | pickAny s => simp only [step, ask, hslot, Slot.prospect_filled]
  | pickOften s n => simp only [step, ask, hslot, Slot.eligible_filled]
  | update s src =>
    simp only [step]
    split
    · rfl
    · rfl
  | copy s dest => cases hcopy
  | _ => cases hc

/-! ## Sessions that are alike -/

/-- Every slot is alike in both. -/
def Alike (w₁ w₂ : Session) : Prop := ∀ s, Slot.Alike (w₁.slot s) (w₂.slot s)

theorem alike_iff {w₁ w₂ : Session} (hw₁ : w₁.WellFormed) (hw₂ : w₂.WellFormed) :
    Alike w₁ w₂ ↔ w₁.filled = w₂.filled := by
  constructor
  · intro h
    exact congrArg Session.mk (funext fun s => (Slot.alike_iff (hw₁ s) (hw₂ s)).mp (h s))
  · intro h s
    exact (Slot.alike_iff (hw₁ s) (hw₂ s)).mpr (congrArg (·.slot s) h)

section

variable {w₁ w₂ : Session} (h : Alike w₁ w₂) (hw₁ : w₁.WellFormed) (hw₂ : w₂.WellFormed)

include h hw₁ hw₂

/-- Sessions that are alike stay so. -/
theorem Alike.step {c : Command} (hc : c.isLenient = true) :
    Alike (w₁.step c).2 (w₂.step c).2 := by
  rw [alike_iff (step_wellFormed hw₁ c) (step_wellFormed hw₂ c), step_filled hw₁ hc,
    step_filled hw₂ hc, (alike_iff hw₁ hw₂).mp h]

/-- They answer alike. -/
theorem Alike.value_step {c : Command} (hc : c.isLenient = true) (hcopy : c.isCopy = false) :
    (w₁.step c).1.value = (w₂.step c).1.value := by
  rw [← value_step_filled w₁ hc hcopy, (alike_iff hw₁ hw₂).mp h, value_step_filled w₂ hc hcopy]

end

/-- They stay alike over any number of lenient commands. -/
theorem Alike.run {w₁ w₂ : Session} (h : Alike w₁ w₂) (hw₁ : w₁.WellFormed)
    (hw₂ : w₂.WellFormed) {cs : List Command} (hcs : ∀ c ∈ cs, c.isLenient = true) :
    Alike (w₁.run cs).2 (w₂.run cs).2 := by
  induction cs generalizing w₁ w₂ with
  | nil => exact h
  | cons c rest ih =>
    obtain ⟨hc, hrest⟩ := List.forall_mem_cons.mp hcs
    exact ih (h.step hw₁ hw₂ hc) (step_wellFormed hw₁ c) (step_wellFormed hw₂ c) hrest

/-- Every one of these that is not a copy is answered alike. -/
theorem Alike.value_run {w₁ w₂ : Session} (h : Alike w₁ w₂) (hw₁ : w₁.WellFormed)
    (hw₂ : w₂.WellFormed) {cs : List Command} (hcs : ∀ c ∈ cs, c.isLenient = true)
    {k : Nat} {c : Command} (hk : cs[k]? = some c) (hcopy : c.isCopy = false) :
    ∃ r₁ r₂, (w₁.run cs).1[k]? = some r₁ ∧ (w₂.run cs).1[k]? = some r₂ ∧
      r₁.value = r₂.value := by
  induction cs generalizing w₁ w₂ k with
  | nil => cases hk
  | cons d rest ih =>
    obtain ⟨hd, hrest⟩ := List.forall_mem_cons.mp hcs
    rw [run_cons, run_cons]
    cases k with
    | zero =>
      cases hk
      exact ⟨_, _, rfl, rfl, h.value_step hw₁ hw₂ hd hcopy⟩
    | succ k =>
      exact ih (h.step hw₁ hw₂ hd) (step_wellFormed hw₁ d) (step_wellFormed hw₂ d) hrest hk

/-- An update from a slot that has no flags changes nothing. -/
theorem step_update_of_size_eq_zero {w : Session} (hw : w.WellFormed) (s : String)
    {src : String} (h : (w.slot src).size = 0) : (w.step (.update s src)).2 = w := by
  simp only [step]
  split
  · rfl
  · have hvalue : ((w.slot s).update (w.slot src)).value = w.slot s := by
      cases hsrc : w.slot src with
      | none => cases w.slot s <;> rfl
      | some b =>
        rw [hsrc] at h
        obtain rfl := (hw src b hsrc).eq_empty h
        cases hs : w.slot s with
        | none => rfl
        | some a => exact congrArg some (Bitmap.overwritten_empty (hw s a hs))
    rw [hvalue]
    exact put_slot w rfl

/--
**No bitmap is as good as one without flags.**

Two reachable sessions may differ in that some slots hold no bitmap in the one and a bitmap without
flags in the other. They are asked the same lenient things, any number of them and in any order:
sizes, flags, writes, whether all flags or none are set, bytes, picks, copies and updates between
any slots. They never come to differ by more, and they answer everything alike but whether a copy is
there; a pick finds a flag in both or in neither, whatever is drawn, and what may come up in some
picks is what does come up in that many picks for some draws. Updating from a slot without flags, of
either kind, changes nothing at all.
-/
theorem absent_like_empty {w₁ w₂ : Session} (h₁ : Reachable w₁) (h₂ : Reachable w₂)
    (h : Alike w₁ w₂) {cs : List Command} (hcs : ∀ c ∈ cs, c.isLenient = true) :
    Alike (w₁.run cs).2 (w₂.run cs).2 ∧
    (∀ (k : Nat) (c : Command), cs[k]? = some c → c.isCopy = false →
      ∃ r₁ r₂, (w₁.run cs).1[k]? = some r₁ ∧ (w₂.run cs).1[k]? = some r₂ ∧
        r₁.value = r₂.value) ∧
    (∀ (a : Bitmap) (draws : List UInt32),
      (a.pick draws).index = none ↔ a.prospect = .nothing) ∧
    (∀ a : Bitmap, a.trueIndices.length < 2 ^ 32 → ∀ (n : Nat) (i : UInt64),
      i ∈ a.eligible n ↔ ∃ rounds : List (List UInt32), rounds.length = n ∧
        ∃ draws ∈ rounds, (a.pick draws).index = some i) ∧
    (∀ w : Session, Reachable w → ∀ s src : String, (w.slot src).size = 0 →
      (w.step (.update s src)).2 = w) := by
  refine ⟨h.run h₁.wellFormed h₂.wellFormed hcs, ?_, ?_, ?_, ?_⟩
  · intro k c hk hcopy
    exact h.value_run h₁.wellFormed h₂.wellFormed hcs hk hcopy
  · intro a draws
    exact a.index_pick_eq_none_iff draws
  · intro a hlt n i
    exact Bitmap.mem_eligible_iff hlt n i
  · intro w hw s src hsrc
    exact step_update_of_size_eq_zero hw.wellFormed s hsrc

/--
One session has nothing where the other has a bitmap without flags. The other bitmap has one flag
set, which two picks may come upon.
-/
theorem absent_like_empty_updated :
    ∃ w₁ w₂ : Session, Reachable w₁ ∧ Reachable w₂ ∧ w₁.slot "z" = none ∧
      w₂.slot "z" = some Bitmap.empty ∧
      Alike (w₁.run [.update "a" "z", .copy "z" "b", .update "b" "a", .isFull "b"]).2
        (w₂.run [.update "a" "z", .copy "z" "b", .update "b" "a", .isFull "b"]).2 ∧
      (∃ r₁ r₂, (w₁.run [.update "a" "z", .copy "z" "b", .update "b" "a", .isFull "b"]).1[3]? =
          some r₁ ∧
        (w₂.run [.update "a" "z", .copy "z" "b", .update "b" "a", .isFull "b"]).1[3]? = some r₂ ∧
        r₁.value = r₂.value) ∧
      (∃ rounds : List (List UInt32), rounds.length = 2 ∧
        ∃ draws ∈ rounds, (((Bitmap.zeroed 70).set 3 true).2.pick draws).index = some 3) ∧
      (w₁.step (.update "a" "z")).2 = w₁ ∧ (w₂.step (.update "a" "z")).2 = w₂ := by
  have h₁ := Reachable.start.run [.create "a" 70, .set "a" 3 true]
  have h₂ := Reachable.start.run [.create "a" 70, .set "a" 3 true, .createEmpty "z"]
  have halike : Alike (start.run [.create "a" 70, .set "a" 3 true]).2
      (start.run [.create "a" 70, .set "a" 3 true, .createEmpty "z"]).2 := by
    intro s
    by_cases hs : s = "z"
    · subst hs
      exact .inr (.inl ⟨rfl, Bitmap.empty, rfl, rfl⟩)
    · exact .inl (slot_put_of_ne _ _ hs).symm
  have hlenient : ∀ c ∈ [Command.update "a" "z", .copy "z" "b", .update "b" "a", .isFull "b"],
      c.isLenient = true := by decide
  obtain ⟨hrun, hanswers, -, heligible, hupdate⟩ := absent_like_empty h₁ h₂ halike hlenient
  have hfull := hanswers 3 (.isFull "b") rfl rfl
  have htwice := (heligible ((Bitmap.zeroed 70).set 3 true).2 (by decide) 2 3).mp (by decide)
  exact ⟨_, _, h₁, h₂, rfl, rfl, hrun, hfull, htwice, hupdate _ h₁ "a" "z" rfl,
    hupdate _ h₂ "a" "z" rfl⟩

end Session

end PackedBits
