import PackedBits.Word

/-!
# Diagnostic events

Some operations leave a note for whoever watches them. An operation that may do so answers with
`Logged`: its value and the events in the order in which they arose. The value never depends on the
events.
-/

namespace PackedBits

/-- Something worth a note that an operation met. -/
inductive Event where
  /-- A copy has fewer flags than its source. -/
  | truncating (old new : UInt64)
  /-- The source of an update has another number of words than its destination. -/
  | mismatchedUpdate (destination source : Nat)
  /-- A decoded bitmap has the wrong number of words. -/
  | wordCountRejected (bits : UInt64) (words : Nat)
  /-- A decoded bitmap has a bit set past its last flag. -/
  | paddingRejected (bits : UInt64)
  deriving DecidableEq

namespace Event

/-- How much an event matters. -/
inductive Level where
  | trace
  | debug
  deriving DecidableEq

/-- The name of a level in a written record. -/
def Level.name : Level → String
  | .trace => "TRACE"
  | .debug => "DEBUG"

/-- An event that loses flags the caller asked to lose is minor; a mismatch is not. -/
def level : Event → Level
  | .truncating .. => .trace
  | .mismatchedUpdate .. | .wordCountRejected .. | .paddingRejected .. => .debug

/-- The part of the system in which an event arises. -/
def target : Event → String
  | .truncating .. | .mismatchedUpdate .. => "syncbits::bitarray"
  | .wordCountRejected .. | .paddingRejected .. => "syncbits::encoding"

/-- What an event says. -/
def message : Event → String
  | .truncating old new => s!"copy_bits truncating {old.toNat} bits to {new.toNat}"
  | .mismatchedUpdate destination source =>
    s!"update between mismatched arrays: {destination} words <- {source} words"
  | .wordCountRejected bits words => s!"rejecting bit array: {bits.toNat} bits with {words} words"
  | .paddingRejected bits => s!"rejecting bit array: padding bits set past {bits.toNat}"

/-- The record of an event: its level, its target and its message. -/
def render (e : Event) : String := s!"{e.level.name} {e.target} {e.message}"

theorem render_wordCountRejected (bits : UInt64) (words : Nat) :
    (wordCountRejected bits words).render =
      "DEBUG syncbits::encoding rejecting bit array: " ++ toString bits.toNat ++ " bits with " ++
        toString words ++ " words" := by
  show "DEBUG" ++ " " ++ "syncbits::encoding" ++ " " ++
    ("rejecting bit array: " ++ toString bits.toNat ++ " bits with " ++ toString words ++
      " words") = _
  simp only [← String.append_assoc]
  rfl

theorem render_paddingRejected (bits : UInt64) :
    (paddingRejected bits).render =
      "DEBUG syncbits::encoding rejecting bit array: padding bits set past " ++
        toString bits.toNat := by
  show "DEBUG" ++ " " ++ "syncbits::encoding" ++ " " ++
    ("rejecting bit array: padding bits set past " ++ toString bits.toNat) = _
  simp only [← String.append_assoc]
  rfl

end Event

/-- A value, and the events that arose on the way to it. -/
structure Logged (α : Type) where
  value : α
  events : List Event := []

namespace Logged

/-- Changes the value and keeps the events. -/
def map {α β : Type} (f : α → β) (x : Logged α) : Logged β := ⟨f x.value, x.events⟩

@[simp] theorem value_map {α β : Type} (f : α → β) (x : Logged α) : (x.map f).value = f x.value := rfl

theorem map_map {α β γ : Type} (f : α → β) (g : β → γ) (x : Logged α) :
    (x.map f).map g = x.map fun v => g (f v) := rfl

end Logged

/-! ## Values that may be missing -/

section Except

variable {ε ε' α β : Type}

theorem map_eq_ok_iff {f : α → β} {x : Except ε α} {b : β} :
    x.map f = .ok b ↔ ∃ a, x = .ok a ∧ f a = b := by
  cases x with
  | error e => simp [Except.map]
  | ok a => simp [Except.map]

theorem map_eq_error_iff {f : α → β} {x : Except ε α} {e : ε} :
    x.map f = .error e ↔ x = .error e := by
  cases x with
  | error e => simp [Except.map]
  | ok a => simp [Except.map]

theorem mapError_eq_ok_iff {f : ε → ε'} {x : Except ε α} {a : α} :
    x.mapError f = .ok a ↔ x = .ok a := by
  cases x with
  | error e =>
    show (.error (f e) : Except ε' α) = .ok a ↔ _
    simp
  | ok b =>
    show (.ok b : Except ε' α) = .ok a ↔ _
    simp

theorem mapError_eq_error_iff {f : ε → ε'} {x : Except ε α} {e' : ε'} :
    x.mapError f = .error e' ↔ ∃ e, x = .error e ∧ f e = e' := by
  cases x with
  | error e =>
    show (.error (f e) : Except ε' α) = .error e' ↔ _
    simp
  | ok a =>
    show (.ok a : Except ε' α) = .error e' ↔ _
    simp

end Except

end PackedBits
