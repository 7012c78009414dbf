/-!
# Shortest decimals

A binary floating-point number stands for all the reals that round to it. Of the decimals among
them, those with the fewest digits are the shortest, and the nearest of those is chosen; of two
equally near ones, the even one.

A number is taken apart into `m * 2 ^ q`, and everything is decided on natural numbers. For each
number of digits there is a grid of decimals, and if any of its points rounds to the number, so does
one of the number's two neighbours on that grid: only these are tried, on finer and finer grids.
Seventeen digits always suffice.
-/

namespace PackedBits.Decimal

/--
A positive number `significand * 2 ^ exponent`. At a power of two the next smaller number is half
as far away as the next greater one, and then `narrow` holds.
-/
structure Dyad where
  significand : Nat
  exponent : Int
  narrow : Bool

/-- The bit above the 52 bits of a fraction, which normal numbers have without storing it. -/
def hiddenBit : Nat := 0x10000000000000

/-- The bit above all others, which negative numbers have. -/
def signBit : Nat := 0x8000000000000000

/-- The magnitude of a finite number. -/
def Dyad.ofFloat (x : Float) : Dyad :=
  let bits := x.toBits.toNat
  let fraction := bits % hiddenBit
  let biased : Nat := bits / hiddenBit % 2048
  if biased = 0 then ⟨fraction, -1074, false⟩
  else ⟨fraction + hiddenBit, (biased : Int) - 1075, fraction = 0 ∧ 1 < biased⟩

/-- A power with any exponent, as numerator and denominator. -/
def ratio (base : Nat) (e : Int) : Nat × Nat :=
  if 0 ≤ e then (Nat.pow base e.toNat, 1) else (1, Nat.pow base (-e).toNat)

/-- Number of decimal digits of a number. -/
def digitCount (n : Nat) : Nat := (Nat.toDigits 10 n).length

/-- The decimal exponent of a positive number: it has that many places before the unit digit. -/
def Dyad.magnitude (v : Dyad) : Int :=
  let (num, den) := ratio 2 v.exponent
  let num := v.significand * num
  if den ≤ num then digitCount (num / den) - 1 else -(digitCount ((den - 1) / num) : Int)

/-- Whether the decimal `c * 10 ^ p` rounds to a number. An end of the interval does if it is even. -/
def Dyad.covers (v : Dyad) (p : Int) (c : Nat) : Bool :=
  let (num, den) := ratio 2 (v.exponent - 2)
  let (tnum, tden) := ratio 10 p
  let point := c * tnum * den
  let low := (4 * v.significand - (if v.narrow then 1 else 2)) * num * tden
  let high := (4 * v.significand + 2) * num * tden
  if v.significand % 2 = 0 then low ≤ point && point ≤ high else low < point && point < high

/-- The nearer of two neighbours `c` and `c + 1` on the grid of `10 ^ p`, the even one if in doubt. -/
def Dyad.nearer (v : Dyad) (p : Int) (c : Nat) : Nat :=
  let (num, den) := ratio 2 v.exponent
  let (tnum, tden) := ratio 10 p
  let twice := 2 * v.significand * num * tden
  let middle := (2 * c + 1) * tnum * den
  if twice < middle then c else if middle < twice then c + 1 else if c % 2 = 0 then c else c + 1

/-- The point on the grid of `10 ^ p` that rounds to a number, if there is one. -/
def Dyad.onGrid (v : Dyad) (p : Int) : Option Nat :=
  let (num, den) := ratio 2 v.exponent
  let (tnum, tden) := ratio 10 p
  let c := v.significand * num * tden / (den * tnum)
  match v.covers p c, v.covers p (c + 1) with
  | true, true => some (v.nearer p c)
  | true, false => some c
  | false, true => some (c + 1)
  | false, false => none

/-- A positive decimal `d.ddd * 10 ^ exponent`, without zeros at the end of its digits. -/
structure Scientific where
  digits : List Char
  exponent : Int

/-- The decimal `c * 10 ^ p`. -/
def Scientific.of (c : Nat) (p : Int) : Scientific :=
  let digits := Nat.toDigits 10 c
  ⟨(digits.reverse.dropWhile (· == '0')).reverse, p + (digits.length - 1 : Nat)⟩

/-- The shortest decimal that rounds to a positive number. -/
def Dyad.shortest (v : Dyad) : Scientific :=
  let grids := (List.range 17).map fun n : Nat => v.magnitude - (n : Int)
  (grids.findSome? fun p => (v.onGrid p).map (Scientific.of · p)).getD ⟨['0'], 0⟩

/-! ## Writing -/

/-- Which decimal exponents are written positionally: those from `least` to `greatest`. -/
structure Style where
  least : Int
  greatest : Int

/-- A decimal with its digits placed around the point, at least one of them on either side. -/
def Scientific.positional (d : Scientific) : List Char :=
  if 0 ≤ d.exponent then
    let whole := d.exponent.toNat + 1
    d.digits.take whole ++ List.replicate (whole - d.digits.length) '0' ++ ['.'] ++
      (if d.digits.length ≤ whole then ['0'] else d.digits.drop whole)
  else ['0', '.'] ++ List.replicate ((-d.exponent).toNat - 1) '0' ++ d.digits

/-- A decimal with one digit before the point and a signed exponent. -/
def Scientific.exponential (d : Scientific) : List Char :=
  let sign := if 0 ≤ d.exponent then '+' else '-'
  d.digits.take 1 ++ (if 1 < d.digits.length then '.' :: d.digits.drop 1 else []) ++ ['e', sign] ++
    Nat.toDigits 10 d.exponent.natAbs

/-- A decimal in the way a style asks for. -/
def Scientific.render (style : Style) (d : Scientific) : List Char :=
  if style.least ≤ d.exponent ∧ d.exponent ≤ style.greatest then d.positional else d.exponential

/-- The shortest text of a finite number. Zero has a sign like any other. -/
def render (style : Style) (x : Float) : List Char :=
  let v := Dyad.ofFloat x
  let magnitude := if v.significand = 0 then ['0', '.', '0'] else v.shortest.render style
  if x.toBits.toNat < signBit then magnitude else '-' :: magnitude

end PackedBits.Decimal
