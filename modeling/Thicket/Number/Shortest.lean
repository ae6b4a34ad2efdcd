import Thicket.Number.Decimal
/-!
# The fewest digits that read back

Reading a decimal gives the nearest double, so each double has an interval of numbers that read back as it.  Of the
decimals in that interval the one with the fewest digits is wanted, and of several the nearest to the double itself.

On a grid of powers of ten only the two neighbours of the double need be looked at: if any point of the grid lies in the
interval, one of these does.  All comparisons are between whole numbers, with everything measured in quarters of the
double's last place.
-/
namespace Thicket.Number

/-- The positive number `num / den`. -/
structure Ratio where
  num : Nat
  den : Nat

namespace Ratio

/-- The number `n * 2 ^ e`. -/
def scale2 (n : Nat) : Int → Ratio
  | .ofNat e => ⟨n * twoTo e, 1⟩
  | .negSucc e => ⟨n, twoTo (e + 1)⟩

/-- The same number counted in units of `10 ^ k`. -/
def inUnits (r : Ratio) : Int → Ratio
  | .ofNat k => ⟨r.num, r.den * tenTo k⟩
  | .negSucc k => ⟨r.num * tenTo (k + 1), r.den⟩

def lt (a b : Ratio) : Bool := decide (a.num * b.den < b.num * a.den)

def le (a b : Ratio) : Bool := decide (a.num * b.den ≤ b.num * a.den)

end Ratio

/-- How many places to shift a number below one, at most `fuel`, before it reaches one. -/
def leadingZeros (den : Nat) : Nat → Nat → Nat
  | 0, _ => 0
  | fuel + 1, num => if den ≤ num then 0 else leadingZeros den fuel (num * 10) + 1

/-- The `p` with `10 ^ (p - 1) ≤ r < 10 ^ p`. -/
def magnitude (r : Ratio) : Int :=
  if r.den ≤ r.num then digitCount (r.num / r.den)
  else 1 - (leadingZeros r.den 400 r.num : Int)

/-- The numbers that read back as a double, and whether the two ends do. -/
structure Interval where
  low : Ratio
  value : Ratio
  high : Ratio
  closed : Bool

/-- The interval around `mantissa * 2 ^ exponent`.  Below a power of two the doubles lie twice as dense, so there the
lower end is half as far away.  The ends lie half way to the next doubles and read back to the even one. -/
def Interval.around (mantissa : Nat) (exponent : Int) : Interval :=
  let below := if mantissa = twoTo 52 && decide (exponent > -1074) then 1 else 2
  { low := Ratio.scale2 (4 * mantissa - below) (exponent - 2)
    value := Ratio.scale2 (4 * mantissa) (exponent - 2)
    high := Ratio.scale2 (4 * mantissa + 2) (exponent - 2)
    closed := mantissa % 2 = 0 }

/-- Whether `n * 10 ^ k` reads back. -/
def Interval.holds (i : Interval) (k : Int) (n : Nat) : Bool :=
  if i.closed then (i.low.inUnits k).le ⟨n, 1⟩ && Ratio.le ⟨n, 1⟩ (i.high.inUnits k)
  else (i.low.inUnits k).lt ⟨n, 1⟩ && Ratio.lt ⟨n, 1⟩ (i.high.inUnits k)

/-- The multiple of `10 ^ k` next to the value that reads back, if one does: the nearer of two, and of two equally near
the even one. -/
def Interval.onGrid? (i : Interval) (k : Int) : Option Nat :=
  let v := i.value.inUnits k
  let floor := v.num / v.den
  match i.holds k floor, i.holds k (floor + 1) with
  | true, false => some floor
  | false, true => some (floor + 1)
  | false, false => none
  | true, true =>
    let twice := 2 * (v.num % v.den)
    if twice < v.den then some floor
    else if v.den < twice then some (floor + 1)
    else if floor % 2 = 0 then some floor else some (floor + 1)

/-- The decimal of the fewest digits that reads back as `mantissa * 2 ^ exponent`, for a positive mantissa.  Seventeen
digits are always enough. -/
def shortest (mantissa : Nat) (exponent : Int) : Decimal :=
  let i := Interval.around mantissa exponent
  let p := magnitude i.value
  let grids := (List.range 17).map fun (n : Nat) => p - ((n : Int) + 1)
  match grids.findSome? fun k => (i.onGrid? k).map fun n => Decimal.mk n k with
  | some d => d
  | none => ⟨i.value.num / i.value.den, 0⟩

end Thicket.Number
