import PackedBits.Proofs.Session.Reachable
import PackedBits.Proofs.Text.Flat

/-!
# Different slots have different texts

The indent is any text. It may look like flags, like the end of the text or like its header, so the
flags cannot be found by what they look like. They are found by their places: what stands in front
of a flag is the header, whose digits end at the first colon, and for each earlier flag one
character and a number of indents that its index alone decides.

So two texts that are equal have the same number of flags, then the same cut into flags, and then
the same flags. A slot without a bitmap has a text that begins like no bitmap's.

## Main statements

* `toDigits_colon_inj` — the header ends where it ends
* `eq_of_flatMap_eq` — chunks of known lengths are found again
* `render_inj` — bitmaps with the same text are equal
* `render_eq_iff` — and so are slots
-/

namespace PackedBits

namespace Bitmap

/-! ## Cutting up a text -/

/-- A number and what comes behind the colon after it are found again. -/
theorem toDigits_colon_inj {n m : Nat} {s t : List Char}
    (h : Nat.toDigits 10 n ++ ':' :: s = Nat.toDigits 10 m ++ ':' :: t) : n = m ∧ s = t := by
  -- the colon is the first character that is no digit, so what follows it does not matter
  have hcut : ∀ (k : Nat) (r : List Char),
      (Nat.toDigits 10 k ++ ':' :: r).takeWhile Char.isDigit = Nat.toDigits 10 k := by
    intro k r
    rw [List.takeWhile_append_of_pos fun c hc =>
      Nat.isDigit_of_mem_toDigits (by decide) (by decide) hc]
    exact List.append_nil _
  have hdigits : Nat.toDigits 10 n = Nat.toDigits 10 m := by
    rw [← hcut n s, h, hcut]
  rw [hdigits] at h
  have hnumber : n = m := calc
    n = Nat.ofDigitChars 10 (Nat.toDigits 10 n) 0 := Nat.ofDigitChars_ten_toDigits.symm
    _ = Nat.ofDigitChars 10 (Nat.toDigits 10 m) 0 := by rw [hdigits]
    _ = m := Nat.ofDigitChars_ten_toDigits
  exact ⟨hnumber, (List.cons.inj (List.append_cancel_left h)).2⟩

/-- Chunks of the same lengths are equal one by one if they are so end to end. -/
theorem eq_of_flatMap_eq {α β : Type} {f g : α → List β} {l : List α}
    (hlen : ∀ x ∈ l, (f x).length = (g x).length) (h : l.flatMap f = l.flatMap g) :
    ∀ x ∈ l, f x = g x := by
  induction l with
  | nil =>
    intro x hx
    cases hx
  | cons y l ih =>
    rw [List.flatMap_cons, List.flatMap_cons] at h
    obtain ⟨hhead, htail⟩ := List.append_inj h (hlen y List.mem_cons_self)
    intro x hx
    rcases List.mem_cons.mp hx with rfl | hx
    · exact hhead
    · exact ih (fun z hz => hlen z (List.mem_cons_of_mem y hz)) htail x hx

/-! ## Flags -/

theorem flagChar_injective {u v : Bool} (h : flagChar u = flagChar v) : u = v := by
  cases u with
  | false =>
    cases v with
    | false => rfl
    | true => exact absurd h (by decide)
  | true =>
    cases v with
    | false => exact absurd h (by decide)
    | true => rfl

/-- The length of a flag's text does not depend on the flag. -/
theorem length_flagText (indent : List Char) (i : Nat) (u v : Bool) :
    (flagText indent i u).length = (flagText indent i v).length := by
  rw [flagText, flagText, List.length_cons, List.length_cons]

/-- Among bitmaps of one size the text of the flags tells the flags. -/
theorem test_eq_of_flatBody {a b : Bitmap} (hs : a.size = b.size) {indent : List Char}
    (h : a.flatBody indent = b.flatBody indent) (i : UInt64) : a.test i = b.test i := by
  by_cases hi : i.toNat < a.size.toNat
  · rw [flatBody, flatBody, ← hs] at h
    have hchunk := eq_of_flatMap_eq (fun j _ => length_flagText indent j _ _) h i.toNat
      (List.mem_range.mpr hi)
    rw [UInt64.ofNat_toNat] at hchunk
    exact flagChar_injective (List.cons.inj hchunk).1
  · rw [test_of_le (by omega), test_of_le (by rw [← hs]; omega)]

theorem framed_inj {a b : Bitmap} {s t : List Char} (h : a.framed s = b.framed t) :
    a.size = b.size ∧ s = t := by
  simp only [framed, List.append_assoc, List.cons_append, List.nil_append, List.cons.injEq,
    true_and] at h
  obtain ⟨hsize, htext⟩ := toDigits_colon_inj h
  exact ⟨UInt64.toNat.inj hsize, List.append_cancel_right htext⟩

/-- Bitmaps with the same text are equal. -/
theorem render_inj {a b : Bitmap} (ha : a.WellFormed) (hb : b.WellFormed) {indent : String}
    (h : a.render indent = b.render indent) : a = b := by
  obtain ⟨hs, hbody⟩ := framed_inj (String.ofList_injective h)
  rw [body_eq_flatBody, body_eq_flatBody] at hbody
  exact ext_test ha hb hs (test_eq_of_flatBody hs hbody)

/-- The text of a bitmap is not that of a slot without one. -/
theorem render_ne_absentText (a : Bitmap) (indent : String) :
    a.render indent ≠ Slot.absentText := by
  intro h
  have hhead := congrArg (·.toList.head?) h
  rw [render, framed] at hhead
  simp [Slot.absentText] at hhead

end Bitmap

/-! ## Slots -/

/-- Slots with the same text have the same content. -/
theorem Slot.render_eq_iff {p q : Slot} (hp : p.WellFormed) (hq : q.WellFormed)
    (indent : String) : p.render indent = q.render indent ↔ p = q := by
  constructor
  · intro h
    cases p with
    | none =>
      cases q with
      | none => rfl
      | some b => exact absurd h.symm (b.render_ne_absentText indent)
    | some a =>
      cases q with
      | none => exact absurd h (a.render_ne_absentText indent)
      | some b =>
        exact congrArg some
          (Bitmap.render_inj (wellFormed_some.mp hp) (wellFormed_some.mp hq) h)
  · rintro rfl
    rfl

namespace Session

/--
**A text tells what is in a slot, whatever the indent is.**

Two slots, each of a reachable session, have the same indented text just if neither holds a bitmap
or both hold the same one. The indent may be any text, empty or made of the characters that the text
of a bitmap is made of. So sessions reply with the same text just in these cases.
-/
theorem render_injective {w₁ w₂ : Session} (h₁ : Reachable w₁) (h₂ : Reachable w₂)
    (s₁ s₂ indent : String) :
    ((w₁.slot s₁).render indent = (w₂.slot s₂).render indent ↔
      (w₁.slot s₁ = none ∧ w₂.slot s₂ = none) ∨
        ∃ a : Bitmap, w₁.slot s₁ = some a ∧ w₂.slot s₂ = some a) ∧
    (∀ (w : Session) (s : String),
      w.step (.render s indent) = (.plain (.text ((w.slot s).render indent)), w)) := by
  refine ⟨?_, fun w s => rfl⟩
  rw [Slot.render_eq_iff (h₁.wellFormed s₁) (h₂.wellFormed s₂)]
  constructor
  · intro h
    rw [h]
    cases w₂.slot s₂ with
    | none => exact .inl ⟨rfl, rfl⟩
    | some a => exact .inr ⟨a, rfl, rfl⟩
  · rintro (⟨hp, hq⟩ | ⟨a, hp, hq⟩)
    · rw [hp, hq]
    · rw [hp, hq]

/-- Two bitmaps of ten flags that differ in the last, with an indent that looks like a flag. -/
theorem render_injective_ten :
    ∃ w : Session, Reachable w ∧ (w.slot "a").render "x" ≠ (w.slot "b").render "x" ∧
      (w.slot "a").render "x" ≠ (w.slot "c").render "x" ∧
      (w.slot "c").render "x" = (w.slot "d").render "x" := by
  have hreach := Reachable.start.run [.create "a" 10, .create "b" 10, .set "b" 9 true]
  refine ⟨_, hreach, ?_, ?_, ?_⟩
  · intro h
    rcases (render_injective hreach hreach "a" "b" "x").1.mp h with ⟨ha, -⟩ | ⟨c, ha, hb⟩
    · cases ha
    · cases ha
      exact absurd hb (by decide)
  · intro h
    rcases (render_injective hreach hreach "a" "c" "x").1.mp h with ⟨ha, -⟩ | ⟨c, -, hc⟩
    · cases ha
    · cases hc
  · exact (render_injective hreach hreach "c" "d" "x").1.mpr (.inl ⟨rfl, rfl⟩)

end Session

end PackedBits
