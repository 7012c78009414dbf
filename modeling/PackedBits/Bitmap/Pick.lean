import PackedBits.Bitmap.Query

/-!
# Picking a set flag at random

Randomness comes as a list of 32-bit draws, followed by zeros once the list is used up. To choose
one of `k` things with equal chances, a draw `v` is spread over them by the product `v * k`: its
upper half is the choice, and its lower half says whether the draw is kept. Rejecting the draws
above a limit leaves every choice equally many draws.

The search ends because a draw of zero is never rejected (`accepts_zero`).

Where the draws are not known, what can be told of a pick is whether it finds a flag, and which one
if only one is set (`Prospect`). Of several picks it can be told which indices may come up.
-/

namespace PackedBits

namespace Draw

/-- The greatest lower half with which a draw over `k` things is kept. -/
def limit (k : Nat) : Nat := (k <<< (31 - k.log2)) - 1

/-- Whether a draw over `k` things is kept. -/
def accepts (k : Nat) (v : UInt32) : Bool := v.toNat * k % UInt32.size ≤ limit k

/-- The choice of a draw over `k` things. -/
def choice (k : Nat) (v : UInt32) : Nat := v.toNat * k / UInt32.size

theorem accepts_zero (k : Nat) : accepts k 0 = true := by simp [accepts]

theorem choice_lt {k : Nat} (h : 0 < k) (v : UInt32) : choice k v < k := by
  have hv : v.toNat < UInt32.size := v.toNat_lt
  rw [choice, Nat.div_lt_iff_lt_mul (by decide), Nat.mul_comm k]
  exact Nat.mul_lt_mul_of_pos_right hv h

/-- The first draw that is kept, as its choice and the number of draws used up to it. -/
def choose (k : Nat) : List UInt32 → Nat × Nat
  | [] => (choice k 0, 1)
  | v :: rest =>
    if accepts k v then (choice k v, 1)
    else
      let (c, used) := choose k rest
      (c, used + 1)

theorem choose_cons (k : Nat) (v : UInt32) (rest : List UInt32) :
    choose k (v :: rest) =
      if accepts k v then (choice k v, 1) else ((choose k rest).1, (choose k rest).2 + 1) := rfl

/-- A choice among some things is one of them, whatever is drawn. -/
theorem choose_lt {k : Nat} (hk : 0 < k) (draws : List UInt32) : (choose k draws).1 < k := by
  induction draws with
  | nil => exact choice_lt hk 0
  | cons v rest ih =>
    rw [choose_cons]
    split
    · exact choice_lt hk v
    · exact ih

/-- A choice takes one draw at least. -/
theorem choose_used_pos (k : Nat) (draws : List UInt32) : 0 < (choose k draws).2 := by
  induction draws with
  | nil => exact Nat.one_pos
  | cons v rest ih =>
    rw [choose_cons]
    split
    · exact Nat.one_pos
    · exact Nat.succ_pos _

end Draw

/-- A pick: the index of the flag, if one is set, and the number of draws used. -/
structure Pick where
  index : Option UInt64
  used : Nat
  deriving DecidableEq

/-- Picks a flag among those that are set, all with equal chances. Without any, nothing is drawn. -/
def Bitmap.pick (a : Bitmap) (draws : List UInt32) : Pick :=
  let indices := a.trueIndices
  if indices.isEmpty then ⟨none, 0⟩
  else
    let (c, used) := Draw.choose indices.length draws
    ⟨indices[c]?, used⟩

/-- Where a flag is set, a pick is a choice among the indices of such flags. -/
theorem Bitmap.pick_eq {a : Bitmap} (h : a.trueIndices ≠ []) (draws : List UInt32) :
    a.pick draws =
      ⟨a.trueIndices[(Draw.choose a.trueIndices.length draws).1]?,
        (Draw.choose a.trueIndices.length draws).2⟩ := by
  rw [pick, if_neg (by simpa using h)]

/-- A pick ends with the first draw that is kept. -/
theorem Bitmap.pick_cons {a : Bitmap} (h : a.trueIndices ≠ []) (v : UInt32) (rest : List UInt32) :
    a.pick (v :: rest) =
      if Draw.accepts a.trueIndices.length v = true then
        ⟨a.trueIndices[Draw.choice a.trueIndices.length v]?, 1⟩
      else ⟨(a.pick rest).index, (a.pick rest).used + 1⟩ := by
  rw [pick_eq h, pick_eq h, Draw.choose_cons]
  split
  · rfl
  · rfl

/-! ## Without knowing the draws -/

/-- What is certain about a pick before anything is drawn. -/
inductive Prospect where
  | nothing
  | only (i : UInt64)
  | several
  deriving DecidableEq

/-- What is certain about a pick among the flags that are set. -/
def Bitmap.prospect (a : Bitmap) : Prospect :=
  match a.trueIndices with
  | [] => .nothing
  | [i] => .only i
  | _ :: _ :: _ => .several

/-- The indices that may come up in `n` picks: any that is set, if there is a pick at all. -/
def Bitmap.eligible (a : Bitmap) (n : Nat) : List UInt64 := if n = 0 then [] else a.trueIndices

end PackedBits
