import Thicket.Text.Printable
/-!
# Quoted text

Texts inside error messages are quoted, with everything escaped that would not print.
-/
namespace Thicket.Text

/-- The number `n` in hexadecimal, lowercase, with zeros in front up to `width` digits. -/
def hex (width n : Nat) : String :=
  let digits := Nat.toDigits 16 n
  String.ofList (List.replicate (width - digits.length) '0' ++ digits)

/-- The quote around a text: a single one, unless the text holds single quotes and no double ones. -/
def quoteFor (s : String) : Char :=
  if s.toList.contains '\'' && !s.toList.contains '"' then '"' else '\''

/-- A character between quotes `q`: a backslash marks the backslash itself, the quote, and what does not print. -/
def escaped (q c : Char) : String :=
  if c = q || c = '\\' then String.ofList ['\\', c]
  else if c = '\n' then "\\n"
  else if c = '\r' then "\\r"
  else if c = '\t' then "\\t"
  else if isPrintable c then String.ofList [c]
  else if c.toNat < 0x100 then "\\x" ++ hex 2 c.toNat
  else if c.toNat < 0x10000 then "\\u" ++ hex 4 c.toNat
  else "\\U" ++ hex 8 c.toNat

def quoted (s : String) : String :=
  let q := quoteFor s
  String.singleton q ++ String.join (s.toList.map (escaped q)) ++ String.singleton q

/-- A list of texts, each quoted, in brackets. -/
def quotedList (names : List String) : String := "[" ++ ", ".intercalate (names.map quoted) ++ "]"

end Thicket.Text
