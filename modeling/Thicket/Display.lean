import Thicket.Number.Text
import Thicket.Stop
import Thicket.Store
/-!
# Showing values

Objects are shown with their fields in the order of their names.  An object that contains itself has no text: a chain of
objects longer than there are objects in the store has met one twice and goes round for ever, and `Store.display` is
then exhausted.
-/
namespace Thicket

/-- Fields between braces, each shown already. -/
def braced (fields : List String) : String :=
  if fields.isEmpty then "\x7b\x7d" else "\x7b " ++ ", ".intercalate fields ++ " \x7d"

/-- Each field after its name.  The first that cannot be shown decides. -/
def fieldTexts (render : Value → Except Stop String) : Table Value → Except Stop (List String)
  | [] => .ok []
  | (name, v) :: rest =>
    match render v with
    | .error e => .error e
    | .ok t =>
      match fieldTexts render rest with
      | .error e => .error e
      | .ok ts => .ok ((name ++ ": " ++ t) :: ts)

namespace Store

/-- The text of a value, with objects nested at most `n` deep.  Texts stand between quotes as they are. -/
def displayWithin (s : Store) : Nat → Value → Except Stop String
  | 0, _ => .error .exhausted
  | _ + 1, .number x => .ok (Number.display x)
  | _ + 1, .boolean b => .ok (if b then "true" else "false")
  | _ + 1, .string t => .ok ("\"" ++ t ++ "\"")
  | _ + 1, .null => .ok "null"
  | n + 1, .object o => (fieldTexts (s.displayWithin n) (Table.sorted (s.fields o))).map braced
  | _ + 1, .closure _ => .ok "<closure>"
  | _ + 1, .native _ => .ok "<native function>"

/-- The text of a value.  It is exhausted exactly when a cycle of objects is reached. -/
def display (s : Store) (v : Value) : Except Stop String := s.displayWithin (s.objects.size + 1) v

/-- A scope in one line: the names it declares, in order, and whether there is a scope around it. -/
def scopeText (s : Store) (e : ScopeId) : String :=
  "Environment(" ++ Text.quotedList (Table.names (Table.sorted (s.bindings e))) ++ ", parent=" ++
    (if (s.parent? e).isSome then "True" else "False") ++ ")"

end Store
end Thicket
