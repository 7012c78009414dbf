import PackedBits.Word

/-!
# Steps that may be refused

The steps of this library cannot fail. A sum that does not fit wraps around, a shift takes its
amount modulo the width, and a look behind the end of an array finds nothing. So nothing shows in
its results whether such a thing ever happens.

Here are the same steps as they are where they can fail: each gives its value, or the `Fault` that
it would have been. A computation made of them goes on only as long as no step is refused. If it is
shown to come to the value of its counterpart without refusals, then none of its steps ever wraps
around, shifts too far or reaches beyond the end.

## Main statements

There is one for each step: it is not refused where it makes sense, and is then what it is without
refusals.
-/

namespace PackedBits

/-- Why a step was refused. -/
inductive Fault where
  /-- The result is no number of 64 bits. -/
  | overflow
  /-- A word is shifted by its width or more. -/
  | shift (amount : UInt64)
  /-- There is no element of this index. -/
  | index (i size : Nat)
  /-- There are not that many elements to take from the front. -/
  | front (count size : Nat)
  /-- Elements are copied over more or fewer others. -/
  | lengths (destination source : Nat)
  /-- Two rows that are gone through side by side do not end together. -/
  | leftOver
  deriving DecidableEq

/-- A value, unless a step on the way to it was refused. -/
abbrev Checked (α : Type) := Except Fault α

namespace Checked

theorem ok_bind {α β : Type} (x : α) (f : α → Checked β) :
    (Except.ok x >>= f : Checked β) = f x := rfl

/-! ## Numbers -/

/-- A number as one of 64 bits. -/
def ofNat (n : Nat) : Checked UInt64 :=
  if n < UInt64.size then .ok (UInt64.ofNat n) else .error .overflow

/-- The sum. -/
def add (x y : UInt64) : Checked UInt64 := ofNat (x.toNat + y.toNat)

/-- The difference. -/
def sub (x y : UInt64) : Checked UInt64 := if y ≤ x then .ok (x - y) else .error .overflow

/-- The product. -/
def mul (x y : UInt64) : Checked UInt64 := ofNat (x.toNat * y.toNat)

theorem ofNat_eq {n : Nat} (h : n < UInt64.size) : ofNat n = .ok (UInt64.ofNat n) := if_pos h

theorem add_eq {x y : UInt64} (h : x.toNat + y.toNat < UInt64.size) : add x y = .ok (x + y) := by
  rw [add, ofNat_eq h, UInt64.ofNat_add, UInt64.ofNat_toNat, UInt64.ofNat_toNat]

theorem sub_eq {x y : UInt64} (h : y ≤ x) : sub x y = .ok (x - y) := if_pos h

theorem mul_eq {x y : UInt64} (h : x.toNat * y.toNat < UInt64.size) : mul x y = .ok (x * y) := by
  rw [mul, ofNat_eq h, UInt64.ofNat_mul, UInt64.ofNat_toNat, UInt64.ofNat_toNat]

/-! ## Shifts -/

/-- The word with its bits moved `k` places up. -/
def shiftLeft (w : Word) (k : UInt64) : Checked Word :=
  if k < 64 then .ok (w <<< k) else .error (.shift k)

/-- The word with its bits moved `k` places down. -/
def shiftRight (w : Word) (k : UInt64) : Checked Word :=
  if k < 64 then .ok (w >>> k) else .error (.shift k)

theorem shiftLeft_eq (w : Word) {k : UInt64} (h : k < 64) : shiftLeft w k = .ok (w <<< k) :=
  if_pos h

theorem shiftRight_eq (w : Word) {k : UInt64} (h : k < 64) : shiftRight w k = .ok (w >>> k) :=
  if_pos h

/-! ## Arrays -/

section

variable {α : Type}

/-- The element of index `i`. -/
def get (xs : Array α) (i : UInt64) : Checked α :=
  if h : i.toNat < xs.size then .ok xs[i.toNat] else .error (.index i.toNat xs.size)

/-- The array with the element of index `i` changed. -/
def modify (xs : Array α) (i : UInt64) (f : α → α) : Checked (Array α) :=
  if i.toNat < xs.size then .ok (xs.modify i.toNat f) else .error (.index i.toNat xs.size)

/-- The first `n` elements. -/
def front (xs : Array α) (n : Nat) : Checked (Array α) :=
  if n ≤ xs.size then .ok (xs.extract 0 n) else .error (.front n xs.size)

/-- The array with its first `n` elements replaced by those of another one. -/
def copyFront (xs ys : Array α) (n : Nat) : Checked (Array α) := do
  let old ← front xs n
  let new ← front ys n
  if old.size = new.size then .ok (new ++ xs.extract n xs.size)
  else .error (.lengths old.size new.size)

theorem get_eq {xs : Array α} {i : UInt64} (h : i.toNat < xs.size) : get xs i = .ok xs[i.toNat] :=
  dif_pos h

theorem modify_eq {xs : Array α} {i : UInt64} (h : i.toNat < xs.size) (f : α → α) :
    modify xs i f = .ok (xs.modify i.toNat f) :=
  if_pos h

theorem front_eq {xs : Array α} {n : Nat} (h : n ≤ xs.size) : front xs n = .ok (xs.extract 0 n) :=
  if_pos h

theorem copyFront_eq {xs ys : Array α} {n : Nat} (hxs : n ≤ xs.size) (hys : n ≤ ys.size) :
    copyFront xs ys n = .ok (ys.extract 0 n ++ xs.extract n xs.size) := by
  rw [copyFront, front_eq hxs, ok_bind, front_eq hys, ok_bind, if_pos]
  rw [Array.size_extract, Array.size_extract]
  omega

/-- A copy has the new elements as far as they go, and behind them the old ones. -/
theorem getElem?_copied (xs : Array α) {ys : Array α} {n : Nat} (hys : n ≤ ys.size) (k : Nat) :
    (ys.extract 0 n ++ xs.extract n xs.size)[k]? = if k < n then ys[k]? else xs[k]? := by
  have hsize : (ys.extract 0 n).size = n := by
    rw [Array.size_extract]
    omega
  rw [Array.getElem?_append, hsize]
  split
  · rw [Array.getElem?_extract, Nat.zero_add, if_pos (by omega)]
  · rw [Array.getElem?_extract, show n + (k - n) = k by omega]
    split
    · rfl
    · rw [Array.getElem?_eq_none (by omega)]

/-- Copying as much as there is room for puts each new element in the place of the old one. -/
theorem copied_eq_mapIdx (xs ys : Array α) :
    ys.extract 0 (min xs.size ys.size) ++ xs.extract (min xs.size ys.size) xs.size =
      xs.mapIdx fun k x => ys.getD k x := by
  refine Array.ext_getElem? fun k => ?_
  rw [getElem?_copied xs (Nat.min_le_right _ _), Array.getElem?_mapIdx]
  by_cases hk : k < xs.size
  · rw [Array.getElem?_eq_getElem hk, Option.map_some, Array.getD_eq_getD_getElem?]
    by_cases hys : k < ys.size
    · rw [if_pos (by omega), Array.getElem?_eq_getElem hys, Option.getD_some]
    · rw [if_neg (by omega), Array.getElem?_eq_none (by omega), Option.getD_none]
  · rw [if_neg (by omega), Array.getElem?_eq_none (by omega), Option.map_none]

end

/-! ## Lists -/

/-- Nothing is refused along a list if nothing is refused for any of its members. -/
theorem mapM_eq {α β : Type} {f : α → Checked β} {g : α → β} {xs : List α}
    (h : ∀ x ∈ xs, f x = .ok (g x)) : xs.mapM f = .ok (xs.map g) := by
  induction xs with
  | nil => rfl
  | cons x xs ih =>
    rw [List.mapM_cons, h x List.mem_cons_self, ok_bind,
      ih fun y hy => h y (List.mem_cons_of_mem x hy), ok_bind]
    rfl

end Checked

end PackedBits
