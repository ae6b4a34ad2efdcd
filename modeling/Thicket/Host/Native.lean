import Thicket.Value
/-!
# Functions of the host

The functions every program is given, and the way an embedding program puts together more of them.
-/
namespace Thicket

/-- The functions that every program may import. -/
def standardNatives : List NativeFunction :=
  [⟨"print", ["any"], "null", .print⟩,
   ⟨"clock", [], "number", .clock⟩,
   ⟨"parseNum", ["string"], "object", .parseNumber⟩,
   ⟨"readString", [], "string", .readLine⟩]

/-- A function of the host in the making. -/
structure NativeDraft where
  name : String
  params : List String := []
  returns : Option String := none
  action : Option HostAction := none

/-- What a draft still lacks. -/
inductive DraftError where
  | missingReturnKind (name : String)
  | missingAction (name : String)
  deriving DecidableEq, Repr

def DraftError.message : DraftError → String
  | missingReturnKind name => "Native function " ++ name ++ " missing return kind"
  | missingAction name => "Native function " ++ name ++ " missing implementation"

namespace NativeDraft

/-- The finished function, once it has a kind to return and something to do. -/
def build (d : NativeDraft) : Except DraftError NativeFunction :=
  match d.returns, d.action with
  | none, _ => .error (.missingReturnKind d.name)
  | some _, none => .error (.missingAction d.name)
  | some returns, some action => .ok ⟨d.name, d.params, returns, action⟩

end NativeDraft
end Thicket
