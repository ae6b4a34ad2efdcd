import Thicket.Json.Reader
import Thicket.Json.Text
import Thicket.Stop
import Thicket.Text.Blank
/-!
# Input lines on the command line

The lines are given as a JSON array or, if the text is anything else, between commas.
-/
namespace Thicket.Cli

/-- The parts of a text between its commas. -/
def splitCommas : List Char → List (List Char)
  | [] => [[]]
  | ',' :: rest => [] :: splitCommas rest
  | c :: rest =>
    match splitCommas rest with
    | [] => [[c]]
    | part :: parts => (c :: part) :: parts

/-- The parts of a text between its commas, without the blanks around them. -/
def partsBetweenCommas (text : String) : List String :=
  (splitCommas text.toList).map fun part => String.ofList (Text.trim Text.isBlank part)

/-- The lines that a text gives.  Items of an array that are no strings are written out. -/
def inputLines (text : String) : Except Fault (List String) :=
  match Json.parse text.toList with
  | .ok (.arr items) => .ok (items.map Json.text)
  | .ok _ | .error (.malformed _ _) => .ok (partsBetweenCommas text)
  | .error .tooManyDigits => .error .tooManyDigits
  | .error .loneSurrogate => .error .loneSurrogate

end Thicket.Cli
