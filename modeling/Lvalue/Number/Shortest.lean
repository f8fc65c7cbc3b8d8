import Lvalue.Number

/-!
# Shortest decimals

The decimal that a positive finite number is written with: of the decimals that
are read back as this number, one with the fewest digits, and of those the one
nearest to it. Reading rounds to the nearest number, so a decimal is read back
as `m * 2 ^ q` if it lies between the midpoints to the neighbours of that
number; a midpoint itself is read as the number whose last bit is zero.

All comparisons are of natural numbers: a `Window` scales the number and both
midpoints to one denominator.
-/

namespace Lvalue

/-- The positive decimal `digits * 10 ^ exponent`. -/
structure Decimal where
  digits : Nat
  exponent : Int
  deriving DecidableEq, Repr

namespace Decimal

/-- The digits, most significant first. -/
def text (d : Decimal) : List Char := Nat.toDigits 10 d.digits

/-- The exponent of the leading digit. -/
def leading (d : Decimal) : Int := d.exponent + d.text.length - 1

/-- The same decimal without trailing zeros, for at most `n` of them. -/
def strip : Nat → Decimal → Decimal
  | 0, d => d
  | n + 1, d => if d.digits % 10 = 0 then strip n ⟨d.digits / 10, d.exponent + 1⟩ else d

end Decimal

/-- A number with the midpoints to its neighbours, as fractions of one
    denominator. -/
structure Window where
  /-- Numerator of the lower midpoint. -/
  low : Nat
  /-- Numerator of the number itself. -/
  mid : Nat
  /-- Numerator of the upper midpoint. -/
  high : Nat
  /-- The common denominator. -/
  unit : Nat
  /-- The midpoints are read as this number. -/
  closed : Bool

namespace Window

/-- The window of `m * 2 ^ q`. Below a power of two the neighbours are twice as
    close. -/
def ofParts (m : Nat) (q : Int) : Window :=
  let scale := (q - 2).toNat
  { low := (4 * m - if m = Number.exponentBit then 1 else 2) <<< scale
    mid := (4 * m) <<< scale
    high := (4 * m + 2) <<< scale
    unit := 1 <<< (2 - q).toNat
    closed := m % 2 == 0 }

/-- The window on the grid of the multiples of `10 ^ g`: after scaling, a grid
    point is a multiple of `unit`. -/
def onGrid (w : Window) (g : Int) : Window :=
  let scale := Nat.pow 10 (-g).toNat
  { low := w.low * scale, mid := w.mid * scale, high := w.high * scale
    unit := w.unit * Nat.pow 10 g.toNat
    closed := w.closed }

/-- The grid point `d` is read back as the number. -/
def admits (w : Window) (d : Nat) : Bool :=
  (w.low < d * w.unit && d * w.unit < w.high) ||
    (w.closed && (w.low == d * w.unit || d * w.unit == w.high))

/-- Of the two grid points around the number the nearest one that is read back;
    of two equally near the larger. -/
def choose? (w : Window) : Option Nat :=
  let below := w.mid / w.unit
  let rest := w.mid % w.unit
  match w.admits below, w.admits (below + 1) with
  | true, true => some (if 2 * rest < w.unit then below else below + 1)
  | true, false => some below
  | false, true => some (below + 1)
  | false, false => none

/-- The exponent of the leading digit of the number. -/
def leading (w : Window) : Int :=
  let guess := ((Nat.toDigits 10 w.mid).length : Int) - (Nat.toDigits 10 w.unit).length
  let reached := w.unit * Nat.pow 10 guess.toNat ≤ w.mid * Nat.pow 10 (-guess).toNat
  if reached then guess else guess - 1

end Window

/-- The shortest decimal of `m * 2 ^ q`, and of those the nearest. Seventeen
    digits tell all numbers apart, so one of the grids has a point. -/
def Decimal.shortest (m : Nat) (q : Int) : Decimal :=
  let w := Window.ofParts m q
  let found := (List.range 17).findSome? fun (n : Nat) =>
    let g := w.leading - n
    ((w.onGrid g).choose?).map fun d => (⟨d, g⟩ : Decimal)
  (found.getD ⟨0, 0⟩).strip 17

end Lvalue
