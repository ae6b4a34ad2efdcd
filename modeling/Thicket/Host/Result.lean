import Thicket.Json.Text
import Thicket.Number.Literal
import Thicket.Run.State
/-!
# Answers of the host

The host answers a call with a document or with named values.  The answer is then turned into a value of the kind that
the function declares, whatever it was.
-/
namespace Thicket

inductive HostResult where
  | data (j : Json)
  | fields (values : Table Value)
  deriving Inhabited

namespace HostResult

def toNumber : HostResult → Except Fault Float
  | data (.bool b) => .ok (if b then 1.0 else 0.0)
  | data (.int n) =>
    match Number.ofInt? n with
    | some x => .ok x
    | none => .error .overflow
  | data (.float x) => .ok x
  | data (.str s) =>
    match Number.ofText? s with
    | some x => .ok x
    | none => .error (.badNumber s)
  | _ => .error .unusable

def truth : HostResult → Bool
  | data j => j.truth
  | fields values => !values.isEmpty

def text : HostResult → String
  | data j => j.text
  | fields values => "\x7b" ++ ", ".intercalate ((Table.names values).map Text.quoted) ++ "\x7d"

/-- The fields of the object to be made.  Nothing, and whatever is empty, make an empty object. -/
def toFields : HostResult → Except Fault (Table Value)
  | fields values => .ok values
  | data .null | data (.arr []) | data (.obj []) => .ok []
  | data (.str s) => if s.isEmpty then .ok [] else .error .unusable
  | data _ => .error .unusable

/-- The value of the declared kind.  An object is a new one, though its fields hold what they held. -/
def wrap (returns : String) (r : HostResult) : Run Value :=
  match Kind.ofLabel? returns with
  | some .number => return .number (← Run.ofFault r.toNumber)
  | some .boolean => return .boolean r.truth
  | some .string => return .string r.text
  | some .null => return .null
  | some .object => do
    let fields ← Run.ofFault r.toFields
    return .object (← Run.onStore (·.newObject fields))
  | some .closure | some .native | none => throw (.fault (.unexpected returns))

end HostResult
end Thicket
