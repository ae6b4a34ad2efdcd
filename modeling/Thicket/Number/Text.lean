import Thicket.Number.Shortest
/-!
# How numbers are written

There are two forms.  A program sees `display`: whole numbers with all their digits, everything else with the fewest
that read back.  Error messages that quote a document use `data`, where a double always shows that it is one, by a point
or an exponent, and large or tiny numbers have an exponent.
-/
namespace Thicket.Number

def signed (negative : Bool) (s : String) : String := if negative then "-" ++ s else s

/-- Decimal digits without the zeros at the end, which say nothing after a point. -/
def trimZeros (cs : List Char) : List Char := (cs.reverse.dropWhile (· = '0')).reverse

/-- Digits with the point after the first `point` of them, zeros filled in on either side. -/
def positional (digits : List Char) (point : Int) : String :=
  if point ≤ 0 then "0." ++ String.ofList (List.replicate point.natAbs '0' ++ digits)
  else if point.natAbs < digits.length then
    String.ofList (digits.take point.natAbs) ++ "." ++ String.ofList (digits.drop point.natAbs)
  else String.ofList (digits ++ List.replicate (point.natAbs - digits.length) '0') ++ ".0"

/-- An exponent with its sign and at least two digits. -/
def exponentText (e : Int) : String :=
  let digits := Nat.toDigits 10 e.natAbs
  (if e < 0 then "-" else "+") ++ String.ofList (List.replicate (2 - digits.length) '0' ++ digits)

/-- One digit, the others after a point, and the exponent. -/
def scientific (digits : List Char) (e : Int) : String :=
  let tail := digits.drop 1
  String.ofList (digits.take 1) ++ (if tail.isEmpty then "" else "." ++ String.ofList tail) ++ "e" ++ exponentText e

/-- A positive double: positional from `10 ^ -4` to just below `10 ^ 16`, with an exponent outside. -/
def magnitudeText (mantissa : Nat) (exponent : Int) : String :=
  let d := shortest mantissa exponent
  let digits := Nat.toDigits 10 d.coefficient
  let point := d.exponent + digits.length
  if -4 < point && point ≤ 16 then positional (trimZeros digits) point
  else scientific (trimZeros digits) (point - 1)

/-- A double in a quoted document. -/
def data (x : Float) : String :=
  match read x with
  | .nan => "nan"
  | .infinite negative => signed negative "inf"
  | .finite negative 0 _ => signed negative "0.0"
  | .finite negative m e => signed negative (magnitudeText m e)

/-- A number as a program shows it.  Negative zero is shown as zero. -/
def display (x : Float) : String :=
  match read x with
  | .nan => "NaN"
  | .infinite negative => signed negative "Infinity"
  | .finite negative m e =>
    match whole? m e with
    | some n => signed (negative && n != 0) (String.ofList (Nat.toDigits 10 n))
    | none => signed negative (magnitudeText m e)

end Thicket.Number
