import Thicket.Failure
import Thicket.Json
import Thicket.Module
/-!
# Values

A value is what an expression evaluates to.  Objects are shared: a value only names one by its number in the store, and
so does a closure name the scope it was declared in.

A function of the host carries what the host does when it is called.  Besides the functions that every program is given
these may be any that an embedding program brings along.  What such a function may do is a `Deed`, a tree of steps that
branches on what the host gets to see.  The host finds its way to values only through the arguments of the call, it
reaches no scope, it calls no function of the program, and it keeps no value from one call to the next.
-/
namespace Thicket

/-- The number of a scope in the store. -/
abbrev ScopeId := Nat

/-- The number of an object in the store. -/
abbrev ObjectId := Nat

/-- A value written out as a finite tree, before it has a place in a store. -/
inductive Blueprint where
  | number (x : Float)
  | boolean (b : Bool)
  | string (s : String)
  | null
  | object (fields : List (String × Blueprint))
  /-- A function with an empty body. -/
  | closure (name : String) (params : List String)
  /-- A function of the host that does nothing. -/
  | native (name : String) (params : List String) (returns : String)
  deriving Inhabited

/-- What the host sees of a value: what it holds, and of an object the names of its fields. -/
inductive Sight where
  | number (x : Float)
  | boolean (b : Bool)
  | string (s : String)
  | null
  | object (names : List String)
  | function

/-- What the host does in one call.  It has values at hand, the arguments at first, and means one by its place among
them; what it comes by later is put after those that are there. -/
inductive Deed where
  /-- Answers with a document. -/
  | answer (data : Json)
  /-- Answers with named values at hand. -/
  | answerFields (fields : List (String × Nat))
  /-- Gives up with a message of its own. -/
  | abort (message : String)
  | write (text : String) (next : Deed)
  | readLine (next : String → Deed)
  /-- Looks at a value.  The fields of an object come to hand, in order. -/
  | look (i : Nat) (next : Sight → Deed)
  /-- Asks whether two values are one and the same object. -/
  | compare (i j : Nat) (next : Bool → Deed)
  /-- Makes a value, which comes to hand. -/
  | make (b : Blueprint) (next : Deed)
  /-- Makes a function of the host, which comes to hand. -/
  | makeNative (name : String) (params : List String) (returns : String) (act : Nat → Deed) (next : Deed)
  | setField (i : Nat) (name : String) (j : Nat) (next : Deed)
  deriving Inhabited

/-- What the host does when one of its functions is called. -/
inductive HostAction where
  /-- Writes the argument on a line of the output. -/
  | print
  | clock
  /-- Reads the number at the start of a text. -/
  | parseNumber
  /-- Takes the next line of the input. -/
  | readLine
  /-- Does what the embedding program has it do.  It may do something else each time: it is told how many calls of such
  functions came before. -/
  | own (act : Nat → Deed)
  deriving Inhabited

/-- A function of the host.  The labels of `params` only count; the label of `returns` says what the host's answer is
turned into. -/
structure NativeFunction where
  name : String
  params : List String
  returns : String
  action : HostAction
  deriving Inhabited

/-- A function of the program, with the scope it was declared in. -/
structure Closure where
  name : String
  params : List String
  body : List Stmt
  scope : ScopeId

inductive Value where
  | number (x : Float)
  | boolean (b : Bool)
  | string (s : String)
  | null
  | object (id : ObjectId)
  | closure (c : Closure)
  | native (f : NativeFunction)
  deriving Inhabited

namespace Value

def kind : Value → Kind
  | number _ => .number
  | boolean _ => .boolean
  | string _ => .string
  | null => .null
  | object _ => .object
  | closure _ => .closure
  | native _ => .native

def isCallable (v : Value) : Bool := v.kind.isCallable

end Value
end Thicket
