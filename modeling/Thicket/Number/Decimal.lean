/-!
# Decimals and doubles

A decimal is a whole number of tenths, hundreds, or whatever power of ten its exponent says.  A double is taken apart
into a whole number times a power of two, so that both can be compared in exact arithmetic.
-/
namespace Thicket.Number

/-- The power `2 ^ n`. -/
def twoTo (n : Nat) : Nat := Nat.pow 2 n

/-- The power `10 ^ n`. -/
def tenTo (n : Nat) : Nat := Nat.pow 10 n

/-- The number `coefficient * 10 ^ exponent`. -/
structure Decimal where
  coefficient : Nat
  exponent : Int
  deriving DecidableEq, Repr

/-- How many decimal digits `n` has. -/
def digitCount (n : Nat) : Nat := (Nat.toDigits 10 n).length

/-- The nearest double, a half going to the even one.  No double lies beyond `10 ^ 400` or, zero apart, within
`10 ^ -400` of zero, so an exponent beyond that need not be computed with. -/
def Decimal.toFloat (d : Decimal) : Float :=
  let size := d.exponent + digitCount d.coefficient
  if d.coefficient = 0 || size < -400 then 0.0
  else if size > 400 then Float.ofScientific 1 false 400
  else if d.exponent < 0 then Float.ofScientific d.coefficient true d.exponent.natAbs
  else Float.ofScientific d.coefficient false d.exponent.natAbs

/-- The nearest double to a whole number, a half going to the even one; `none` beyond the doubles. -/
def ofInt? (n : Int) : Option Float :=
  let x := Decimal.toFloat ⟨n.natAbs, 0⟩
  if x.isInf then none else some (if n < 0 then -x else x)

/-- What a double stands for. -/
inductive Reading where
  | nan
  | infinite (negative : Bool)
  /-- The number `mantissa * 2 ^ exponent`, or its opposite. -/
  | finite (negative : Bool) (mantissa : Nat) (exponent : Int)
  deriving DecidableEq, Repr

def read (x : Float) : Reading :=
  let bits := x.toBits.toNat
  let negative := decide (bits / twoTo 63 = 1)
  let fraction := bits % twoTo 52
  let biased := bits / twoTo 52 % twoTo 11
  if biased = 2047 then if fraction = 0 then .infinite negative else .nan
  else if biased = 0 then .finite negative fraction (-1074)
  else .finite negative (twoTo 52 + fraction) ((biased : Int) - 1075)

/-- The whole number `mantissa * 2 ^ exponent`, if it is one. -/
def whole? (mantissa : Nat) : Int → Option Nat
  | .ofNat e => some (mantissa * twoTo e)
  | .negSucc e => if mantissa % twoTo (e + 1) = 0 then some (mantissa / twoTo (e + 1)) else none

end Thicket.Number
