/-!
# Numbers

A number is a binary floating-point word of 64 bits: a sign bit, 11 bits of
exponent and 52 bits of fraction. Nothing is ever computed with numbers, so the
word is all there is: numbers are compared, used as keys of maps, written as
text, and made from integers.

There are three ways to tell two numbers apart (`equals`, `same` and, through
`canonical`, the one of map keys), and they part only at the words that are not
a number and at the two zeros.
-/

namespace Lvalue

/-- A binary floating-point number. -/
structure Number where
  /-- Sign, exponent and fraction, from the highest bit down. -/
  bits : UInt64
  deriving DecidableEq, Repr, Inhabited

namespace Number

/-- The sign bit, `2 ^ 63`. -/
def signBit : Nat := 0x8000000000000000

/-- The lowest bit of the exponent, `2 ^ 52`. The fraction is below it. -/
def exponentBit : Nat := 0x10000000000000

/-- Exponent and fraction read as one integer. It grows with the distance of
    the number from zero. -/
def magnitude (x : Number) : Nat := x.bits.toNat % signBit

/-- The sign bit is set. -/
def isNegative (x : Number) : Bool := decide (signBit ≤ x.bits.toNat)

/-- The magnitude of the infinities; what lies above is not a number. -/
def infinite : Nat := 2047 * exponentBit

/-- The word is not a number. -/
def isNaN (x : Number) : Bool := decide (infinite < x.magnitude)

/-- The word is one of the two zeros. -/
def isZero (x : Number) : Bool := decide (x.magnitude = 0)

/-- The word that stands for all those that are not a number. -/
def nan : Number := ⟨0x7ff8000000000000⟩

/-- The zero without sign. -/
def zero : Number := ⟨0⟩

/-- Numeric equality: the two zeros are equal, and what is not a number differs
    from all, itself included. -/
def equals (x y : Number) : Bool :=
  !x.isNaN && !y.isNaN && (decide (x = y) || (x.isZero && y.isZero))

/-- Identity of values: all that is not a number is the same, and the two zeros
    differ. -/
def same (x y : Number) : Bool :=
  (x.isNaN && y.isNaN) || (x.equals y && x.isNegative == y.isNegative)

/-- The representative of a number among those that name the same map entry: one
    word for all that is not a number, and one zero. -/
def canonical (x : Number) : Number :=
  if x.isNaN then nan else if x.isZero then zero else x

/-! ## Value -/

/-- The absolute value of a finite number as `m * 2 ^ q`. -/
def parts (x : Number) : Nat × Int :=
  let exponent := x.magnitude / exponentBit
  let fraction := x.magnitude % exponentBit
  if exponent = 0 then (fraction, -1074) else (exponentBit + fraction, (exponent : Int) - 1075)

/-- The integer that the number is, up to a magnitude of `2 ^ 53`; the zero with
    a sign is none. -/
def toInt? (x : Number) : Option Int :=
  let (m, q) := x.parts
  let whole := if 0 ≤ q then m <<< q.toNat else m >>> (-q).toNat
  let exact := 0 ≤ q || whole <<< (-q).toNat == m
  if infinite ≤ x.magnitude || (x.isZero && x.isNegative) then none
  else if exact && whole ≤ 2 * exponentBit then
    some (if x.isNegative then -(whole : Int) else whole)
  else none

/-- The quotient `n / 2 ^ s` rounded to the nearest integer, a half to the even one. -/
def roundShift (n s : Nat) : Nat :=
  let floor := n >>> s
  let rest := 2 * (n - floor <<< s)
  if rest < 1 <<< s || (rest == 1 <<< s && floor % 2 == 0) then floor else floor + 1

/-- The magnitude of the number nearest to `n`. A carry out of the fraction goes
    into the exponent, and what is too large becomes infinite. -/
def magnitudeOf (n : Nat) : Nat :=
  if n = 0 then 0
  else
    let top := n.log2
    let significand := if top ≤ 52 then n <<< (52 - top) else roundShift n (top - 52)
    min ((top + 1022) * exponentBit + significand) infinite

/-- The number nearest to `n`. -/
def ofNat (n : Nat) : Number := ⟨.ofNat (magnitudeOf n)⟩

/-- The number nearest to `n`. -/
def ofInt (n : Int) : Number :=
  if n < 0 then ⟨.ofNat (signBit + magnitudeOf n.natAbs)⟩ else ofNat n.natAbs

end Number

end Lvalue
