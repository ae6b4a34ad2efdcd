import Thicket.Number.Decimal
import Thicket.Text.Blank
import Thicket.Text.Digit
/-!
# Reading numbers

A literal is an optional sign, then `Infinity`, or digits with an optional point and an optional exponent.  Digits of
any script count.  `leading?` reads the longest literal at the start of a text and gives back what follows it;
`ofText?` reads a text that has to be a number from end to end, and is more generous about its spelling.
-/
namespace Thicket.Number

inductive Literal where
  | infinity (negative : Bool)
  /-- The digits before and after the point, and the exponent. -/
  | decimal (negative : Bool) (whole fraction : List Nat) (exponent : Int)
  deriving DecidableEq, Repr

def ofDigits (ds : List Nat) : Nat := ds.foldl (fun n d => 10 * n + d) 0

/-- Positive infinity. -/
def infinity : Float := Float.ofBits 0x7FF0000000000000

def notANumber : Float := Float.ofBits 0x7FF8000000000000

namespace Literal

def negate (negative : Bool) (x : Float) : Float := if negative then -x else x

def toFloat : Literal → Float
  | infinity negative => negate negative Number.infinity
  | decimal negative whole fraction exponent =>
    negate negative (Decimal.toFloat ⟨ofDigits (whole ++ fraction), exponent - fraction.length⟩)

end Literal

/-- The digits at the start of a text, and the rest. -/
def spanDigits : List Char → List Nat × List Char
  | [] => ([], [])
  | c :: rest =>
    match Text.digit? c with
    | some d => let (ds, after) := spanDigits rest; (d :: ds, after)
    | none => ([], c :: rest)

/-- Whether a text starts with a minus sign, and the text without its sign. -/
def spanSign : List Char → Bool × List Char
  | '-' :: rest => (true, rest)
  | '+' :: rest => (false, rest)
  | rest => (false, rest)

/-- Digits with an optional point: those before it, those after it, and the rest.  One digit at least. -/
def spanMantissa? (cs : List Char) : Option (List Nat × List Nat × List Char) :=
  match spanDigits cs with
  | ([], '.' :: rest) =>
    match spanDigits rest with
    | ([], _) => none
    | (fraction, after) => some ([], fraction, after)
  | ([], _) => none
  | (whole, '.' :: rest) => let (fraction, after) := spanDigits rest; some (whole, fraction, after)
  | (whole, after) => some (whole, [], after)

/-- The exponent at the start of a text and the rest.  A mark without digits is not one and stays where it is. -/
def spanExponent (cs : List Char) : Int × List Char :=
  match cs with
  | c :: rest =>
    if c = 'e' || c = 'E' then
      let (negative, rest) := spanSign rest
      match spanDigits rest with
      | ([], _) => (0, cs)
      | (ds, after) => (if negative then -(ofDigits ds : Int) else ofDigits ds, after)
    else (0, cs)
  | [] => (0, [])

/-- The rest of a text after `word`, if it starts with it. -/
def afterWord? (word cs : List Char) : Option (List Char) :=
  if word.isPrefixOf cs then some (cs.drop word.length) else none

/-- The longest literal at the start of a text, and the rest. -/
def leading? (cs : List Char) : Option (Literal × List Char) :=
  let (negative, body) := spanSign cs
  match afterWord? "Infinity".toList body with
  | some rest => some (.infinity negative, rest)
  | none =>
    match spanMantissa? body with
    | none => none
    | some (whole, fraction, rest) =>
      let (exponent, rest) := spanExponent rest
      some (.decimal negative whole fraction exponent, rest)

/-- The number at the start of a text, after any blanks; NaN if there is none. -/
def leading (s : String) : Float :=
  match leading? (Text.trimStart Text.isBlank s.toList) with
  | some (l, _) => l.toFloat
  | none => notANumber

/-! ## A whole text -/

/-- Blanks around a number; the information separators are not among them. -/
def isMargin (c : Char) : Bool := Text.isBlank c && !decide (0x1C ≤ c.toNat ∧ c.toNat ≤ 0x1F)

/-- A text without the underscores between its digits.  Elsewhere an underscore is an error.  `digit` is whether a digit
stands right before. -/
def withoutSeparators? (digit : Bool) : List Char → Option (List Char)
  | [] => some []
  | ['_'] => none
  | '_' :: c :: rest =>
    if digit && Text.isDigit c then (withoutSeparators? true rest).map (c :: ·) else none
  | c :: rest => (withoutSeparators? (Text.isDigit c) rest).map (c :: ·)

/-- The two special numbers, in letters of either case. -/
def special? (cs : List Char) : Option Float :=
  let word := String.ofList (cs.map Char.toLower)
  if word = "inf" || word = "infinity" then some infinity
  else if word = "nan" then some notANumber
  else none

/-- The number that a text spells from end to end.  Blanks around it, underscores between digits, and `inf`, `infinity`
and `nan` in letters of either case are allowed. -/
def ofText? (s : String) : Option Float :=
  match withoutSeparators? false (Text.trim isMargin s.toList) with
  | none => none
  | some cs =>
    let (negative, body) := spanSign cs
    match special? body with
    | some x => some (Literal.negate negative x)
    | none =>
      match leading? cs with
      | some (l, []) => some l.toFloat
      | _ => none

end Thicket.Number
