import Lvalue.Number.Shortest

/-!
# Written numbers

A number is written with its shortest decimal. Two notations are in use, and
they differ in three decisions, the fields of `Notation`: `plain` is how a
number reads as text and `detailed` is how it reads in a description of a value.
-/

namespace Lvalue

/-- The decisions of a way of writing numbers. -/
structure Notation where
  /-- The leading exponents of the numbers written without an exponent. -/
  positional : Int → Bool
  /-- An integer ends in a point and a zero. -/
  pointZero : Bool

namespace Notation

/-- All digits are written out, and integers have no point. -/
def plain : Notation := ⟨fun _ => true, false⟩

/-- Numbers from `10 ^ 16` on and below `10 ^ -4` have an exponent, and the other
    integers end in a point and a zero. -/
def detailed : Notation := ⟨fun e => -4 ≤ e && e < 16, true⟩

/-- The decimal with all its digits around the point. -/
def positionalText (n : Notation) (d : Decimal) : List Char :=
  let digits := d.text
  let point := digits.length + d.exponent
  if 0 ≤ d.exponent then
    digits ++ List.replicate d.exponent.toNat '0' ++ if n.pointZero then ['.', '0'] else []
  else if 0 < point then digits.take point.toNat ++ '.' :: digits.drop point.toNat
  else '0' :: '.' :: List.replicate (-point).toNat '0' ++ digits

/-- The decimal with one digit before the point, and an exponent. -/
def scientificText (d : Decimal) : List Char :=
  let fraction := match d.text.drop 1 with
    | [] => []
    | rest => '.' :: rest
  d.text.take 1 ++ fraction ++ 'e' :: (toString d.leading).toList

/-- The text of a positive finite number `m * 2 ^ q`. -/
def positiveText (n : Notation) (m : Nat) (q : Int) : List Char :=
  let d := Decimal.shortest m q
  if n.positional d.leading then n.positionalText d else scientificText d

end Notation

/-- The text of a number. A word that is not a number has no sign. -/
def Number.text (n : Notation) (x : Number) : String :=
  let size : List Char :=
    if x.isZero then n.positionalText ⟨0, 0⟩
    else if x.magnitude = infinite then ['i', 'n', 'f']
    else n.positiveText x.parts.1 x.parts.2
  if x.isNaN then "NaN" else String.ofList (if x.isNegative then '-' :: size else size)

end Lvalue
