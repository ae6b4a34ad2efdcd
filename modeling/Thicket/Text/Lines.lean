import Thicket.Text.Blank
/-!
# Lines

Line ends come in three spellings, CR LF, CR and LF.  A text is read with all of them turned into LF.
-/
namespace Thicket.Text

/-- Every line end as one LF. -/
def unifyNewlines : List Char → List Char
  | '\r' :: '\n' :: rest => '\n' :: unifyNewlines rest
  | '\r' :: rest => '\n' :: unifyNewlines rest
  | c :: rest => c :: unifyNewlines rest
  | [] => []

/-- The lines of a text, without their ends.  The end of the text ends its last line, unless that line is empty. -/
def lines : List Char → List (List Char)
  | [] => []
  | '\n' :: rest => [] :: lines rest
  | c :: rest =>
    match lines rest with
    | [] => [[c]]
    | line :: tail => (c :: line) :: tail

def isNewline (c : Char) : Bool := c = '\r' || c = '\n'

/-- A line without the CR and LF characters at its end. -/
def chomp (s : String) : String :=
  String.ofList (trimEnd isNewline s.toList)

end Thicket.Text
