import Thicket.Json
import Thicket.Number.Text
import Thicket.Text.Quoted
/-!
# Documents as text

`Json.literal` is the form in which messages quote a document.  It tells an integer from a double and a text from a
name: `1` and `1.0`, `'a'` and `None`.
-/
namespace Thicket.Json

mutual

def literal : Json → String
  | null => "None"
  | bool true => "True"
  | bool false => "False"
  | int n => toString n
  | float x => Number.data x
  | str s => Text.quoted s
  | arr items => "[" ++ ", ".intercalate (literals items) ++ "]"
  | obj fields => "\x7b" ++ ", ".intercalate (fieldLiterals fields) ++ "\x7d"

def literals : List Json → List String
  | [] => []
  | j :: rest => literal j :: literals rest

def fieldLiterals : List (String × Json) → List String
  | [] => []
  | (name, j) :: rest => (Text.quoted name ++ ": " ++ literal j) :: fieldLiterals rest

end

/-- A document as a text of its own: a string stands for itself. -/
def text : Json → String
  | str s => s
  | j => literal j

/-- Whether a document counts as true: all do but null, false, zero, and whatever is empty. -/
def truth : Json → Bool
  | null => false
  | bool b => b
  | int n => n != 0
  | float x => x != 0.0
  | str s => !s.isEmpty
  | arr items => !items.isEmpty
  | obj fields => !fields.isEmpty

end Thicket.Json
