import Thicket.Json
import Thicket.Number.Literal
/-!
# Reading documents

A reader of JSON text.  Beyond the standard, `NaN`, `Infinity` and `-Infinity` are numbers, and nothing but a number
that has neither point nor exponent is an integer.  A string holds no control characters.

An error keeps the text from the place where it was found on.  That is all that is needed to say on which line it is.
Two things are not wrong with the text and still cannot be read: an integer of more digits than `maxDigits`, and an
escape that writes one half of a surrogate pair without the other, which no text can hold.
-/
namespace Thicket.Json

inductive ReadProblem where
  | expectedValue | expectedName | expectedColon | expectedComma | extraData
  | unterminatedString | controlCharacter | invalidEscape | invalidUnicodeEscape
  | byteOrderMark
  deriving DecidableEq, Repr

def ReadProblem.message : ReadProblem → String
  | expectedValue => "Expecting value"
  | expectedName => "Expecting property name enclosed in double quotes"
  | expectedColon => "Expecting ':' delimiter"
  | expectedComma => "Expecting ',' delimiter"
  | extraData => "Extra data"
  | unterminatedString => "Unterminated string starting at"
  | controlCharacter => "Invalid control character at"
  | invalidEscape => "Invalid \\escape"
  | invalidUnicodeEscape => "Invalid \\uXXXX escape"
  | byteOrderMark => "Unexpected UTF-8 BOM (decode using utf-8-sig)"

/-- Why no document was read. -/
inductive ReadError where
  /-- What is wrong, and the text from there on. -/
  | malformed (problem : ReadProblem) (rest : List Char)
  | tooManyDigits
  | loneSurrogate
  deriving Repr

/-- The line on which the rest of a text begins, the first line being 1. -/
def lineOf (text rest : List Char) : Nat := text.count '\n' - rest.count '\n' + 1

/-- What a reader gives: what it read and the rest of the text. -/
abbrev Reader (α : Type) := Except ReadError (α × List Char)

def isSpace (c : Char) : Bool := c = ' ' || c = '\t' || c = '\n' || c = '\r'

def skipSpace (cs : List Char) : List Char := cs.dropWhile isSpace

/-! ## Strings -/

def hexDigit? (c : Char) : Option Nat :=
  if '0' ≤ c ∧ c ≤ '9' then some (c.toNat - 0x30)
  else if 'a' ≤ c ∧ c ≤ 'f' then some (c.toNat - 0x61 + 10)
  else if 'A' ≤ c ∧ c ≤ 'F' then some (c.toNat - 0x41 + 10)
  else none

/-- The number that four hexadecimal digits write, if a text of more than four characters starts with them. -/
def hexUnit? : List Char → Option (Nat × List Char)
  | a :: b :: c :: d :: next :: rest =>
    match hexDigit? a, hexDigit? b, hexDigit? c, hexDigit? d with
    | some a, some b, some c, some d => some (((a * 16 + b) * 16 + c) * 16 + d, next :: rest)
    | _, _, _, _ => none
  | _ => none

def isHighSurrogate (n : Nat) : Bool := decide (0xD800 ≤ n ∧ n ≤ 0xDBFF)

def isLowSurrogate (n : Nat) : Bool := decide (0xDC00 ≤ n ∧ n ≤ 0xDFFF)

/-- The character that a unit writes alone, and the rest of the text.  Half of a surrogate pair writes none. -/
def readUnit (n : Nat) (rest : List Char) : Reader Char :=
  if isHighSurrogate n || isLowSurrogate n then .error .loneSurrogate else .ok (Char.ofNat n, rest)

def pairChar (high low : Nat) : Char := Char.ofNat (0x10000 + (high - 0xD800) * 0x400 + (low - 0xDC00))

/-- The character of a `\u` escape; `cs` is the text after the `u`.  Two escapes can write one character together. -/
def readUnicode (cs : List Char) : Reader Char :=
  match hexUnit? cs with
  | none => .error (.malformed .invalidUnicodeEscape ('u' :: cs))
  | some (unit, rest) =>
    match rest with
    | '\\' :: 'u' :: after =>
      if isHighSurrogate unit && decide (4 < after.length) then
        match hexUnit? after with
        | none => .error (.malformed .invalidUnicodeEscape ('u' :: after))
        | some (low, tail) =>
          if isLowSurrogate low then .ok (pairChar unit low, tail) else readUnit unit rest
      else readUnit unit rest
    | _ => readUnit unit rest

def simpleEscape? : Char → Option Char
  | '"' => some '"'
  | '\\' => some '\\'
  | '/' => some '/'
  | 'b' => some '\x08'
  | 'f' => some '\x0c'
  | 'n' => some '\n'
  | 'r' => some '\r'
  | 't' => some '\t'
  | _ => none

/-- The rest of a string after its opening quote, in at most `n` steps.  `start` is the text from that quote on, and
`done` what has been read, last character first. -/
def readString (start : List Char) : Nat → List Char → List Char → Reader String
  | 0, _, _ => .error (.malformed .unterminatedString start)
  | _ + 1, _, [] => .error (.malformed .unterminatedString start)
  | _ + 1, done, '"' :: rest => .ok (String.ofList done.reverse, rest)
  | _ + 1, _, ['\\'] => .error (.malformed .unterminatedString start)
  | n + 1, done, '\\' :: 'u' :: rest =>
    match readUnicode rest with
    | .ok (c, rest) => readString start n (c :: done) rest
    | .error e => .error e
  | n + 1, done, '\\' :: c :: rest =>
    match simpleEscape? c with
    | some c => readString start n (c :: done) rest
    | none => .error (.malformed .invalidEscape ('\\' :: c :: rest))
  | n + 1, done, c :: rest =>
    if c.toNat < 0x20 then .error (.malformed .controlCharacter (c :: rest))
    else readString start n (c :: done) rest

/-! ## Numbers -/

def spanAsciiDigits (cs : List Char) : List Nat × List Char :=
  ((cs.takeWhile Char.isDigit).map fun c => c.toNat - 0x30, cs.dropWhile Char.isDigit)

/-- The digits before the point: a zero alone, or digits that do not start with one. -/
def spanWhole? : List Char → Option (List Nat × List Char)
  | '0' :: rest => some ([0], rest)
  | cs =>
    match spanAsciiDigits cs with
    | ([], _) => none
    | found => some found

/-- A point and the digits after it; a point without digits is left alone. -/
def spanFraction? : List Char → Option (List Nat × List Char)
  | '.' :: rest =>
    match spanAsciiDigits rest with
    | ([], _) => none
    | found => some found
  | _ => none

/-- An exponent; a mark without digits is left alone. -/
def spanPower? : List Char → Option (Int × List Char)
  | c :: rest =>
    if c = 'e' || c = 'E' then
      let (negative, rest) := Number.spanSign rest
      match spanAsciiDigits rest with
      | ([], _) => none
      | (ds, rest) => some (if negative then -(Number.ofDigits ds : Int) else Number.ofDigits ds, rest)
    else none
  | [] => none

/-- The most digits that an integer may have. -/
def maxDigits : Nat := 4300

def readInteger (negative : Bool) (whole : List Nat) (rest : List Char) : Reader Json :=
  if maxDigits < whole.length then .error .tooManyDigits
  else
    let n : Int := Number.ofDigits whole
    .ok (.int (if negative then -n else n), rest)

/-- The number at the start of a text, if there is one.  Without point and exponent it is an integer. -/
def readNumber? (cs : List Char) : Option (Reader Json) :=
  let (negative, body) := match cs with
    | '-' :: rest => (true, rest)
    | _ => (false, cs)
  match spanWhole? body with
  | none => none
  | some (whole, rest) =>
    match spanFraction? rest, spanPower? rest with
    | none, none => some (readInteger negative whole rest)
    | none, some (power, rest) => some (.ok (.float (Number.Literal.decimal negative whole [] power).toFloat, rest))
    | some (fraction, rest), _ =>
      let (power, rest) := (spanPower? rest).getD (0, rest)
      some (.ok (.float (Number.Literal.decimal negative whole fraction power).toFloat, rest))

/-- The names that stand for a value. -/
def words : List (List Char × Json) :=
  [("null".toList, .null), ("true".toList, .bool true), ("false".toList, .bool false),
   ("NaN".toList, .float Number.notANumber), ("Infinity".toList, .float Number.infinity),
   ("-Infinity".toList, .float (-Number.infinity))]

def readWord? (cs : List Char) : Option (Json × List Char) :=
  words.findSome? fun w => (Number.afterWord? w.1 cs).map fun rest => (w.2, rest)

/-! ## Values -/

mutual

def readValue : Nat → List Char → Reader Json
  | 0, cs => .error (.malformed .expectedValue cs)
  | _ + 1, '"' :: rest =>
    match readString ('"' :: rest) (rest.length + 1) [] rest with
    | .ok (s, rest) => .ok (.str s, rest)
    | .error e => .error e
  | n + 1, '[' :: rest =>
    match skipSpace rest with
    | ']' :: rest => .ok (.arr [], rest)
    | rest => readItems n [] rest
  | n + 1, '\x7b' :: rest =>
    match skipSpace rest with
    | '\x7d' :: rest => .ok (.obj [], rest)
    | rest => readFields n [] rest
  | _ + 1, cs =>
    match readWord? cs with
    | some found => .ok found
    | none =>
      match readNumber? cs with
      | some found => found
      | none => .error (.malformed .expectedValue cs)

/-- The items of an array, from the next one to the closing bracket.  `done` holds those before, last one first. -/
def readItems : Nat → List Json → List Char → Reader Json
  | 0, _, cs => .error (.malformed .expectedValue cs)
  | n + 1, done, cs =>
    match readValue n cs with
    | .error e => .error e
    | .ok (j, rest) =>
      match skipSpace rest with
      | ']' :: rest => .ok (.arr (j :: done).reverse, rest)
      | ',' :: rest => readItems n (j :: done) (skipSpace rest)
      | rest => .error (.malformed .expectedComma rest)

/-- The fields of an object, from the next one to the closing brace. -/
def readFields : Nat → Table Json → List Char → Reader Json
  | 0, _, cs => .error (.malformed .expectedValue cs)
  | n + 1, done, '"' :: cs =>
    match readString ('"' :: cs) (cs.length + 1) [] cs with
    | .error e => .error e
    | .ok (name, rest) =>
      match skipSpace rest with
      | ':' :: rest =>
        match readValue n (skipSpace rest) with
        | .error e => .error e
        | .ok (j, rest) =>
          match skipSpace rest with
          | '\x7d' :: rest => .ok (.obj (Table.insert done name j), rest)
          | ',' :: rest => readFields n (Table.insert done name j) (skipSpace rest)
          | rest => .error (.malformed .expectedComma rest)
      | rest => .error (.malformed .expectedColon rest)
  | _ + 1, _, cs => .error (.malformed .expectedName cs)

end

/-- The document that a text is from end to end.  Every character is read by at most two steps. -/
def parse (text : List Char) : Except ReadError Json :=
  if text.head? = some (Char.ofNat 0xFEFF) then .error (.malformed .byteOrderMark text)
  else
    match readValue (2 * text.length + 2) (skipSpace text) with
    | .error e => .error e
    | .ok (j, rest) =>
      match skipSpace rest with
      | [] => .ok j
      | rest => .error (.malformed .extraData rest)

end Thicket.Json
