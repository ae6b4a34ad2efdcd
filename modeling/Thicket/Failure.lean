/-!
# Failures

A failure ends a run.  `Failure` names the cause with exactly the facts that the cause has.  `Report` is the flat record
in which a failure is handed to the outside: a code, and whichever facts are known.  The wording lives on the record, in
`Report.message`, so a record with a fact missing can still be shown.
-/
namespace Thicket

/-- The kinds of run-time values. -/
inductive Kind where
  | number | boolean | string | null | object | closure | native
  deriving DecidableEq, Repr

namespace Kind

def label : Kind → String
  | number => "number" | boolean => "boolean" | string => "string" | null => "null"
  | object => "object" | closure => "closure" | native => "nativeFunc"

def all : List Kind := [number, boolean, string, null, object, closure, native]

def ofLabel? (s : String) : Option Kind := all.find? fun k => k.label = s

/-- Functions, of the program or of the host, can be called and nothing else. -/
def isCallable : Kind → Bool
  | closure | native => true
  | _ => false

theorem ofLabel?_label (k : Kind) : ofLabel? k.label = some k := by cases k <;> decide

end Kind

inductive FailureCode where
  | notInScope | unassignedVariable
  | notFunction | notObject | typeMismatch | arityMismatch | nativeReturnedFunction
  | noSuchModule | noSuchExport | noMain | multipleMains | circularDependency
  deriving DecidableEq, Repr

namespace FailureCode

def label : FailureCode → String
  | notInScope => "NotInScope"
  | unassignedVariable => "UnassignedVariable"
  | notFunction => "NotFunction"
  | notObject => "NotObject"
  | typeMismatch => "TypeMismatch"
  | arityMismatch => "ArityMismatch"
  | nativeReturnedFunction => "NativeFunctionReturnedFunc"
  | noSuchModule => "NoSuchModule"
  | noSuchExport => "NoSuchExport"
  | noMain => "NoMain"
  | multipleMains => "MultipleMains"
  | circularDependency => "CircularDependency"

def all : List FailureCode :=
  [notInScope, unassignedVariable, notFunction, notObject, typeMismatch, arityMismatch, nativeReturnedFunction,
   noSuchModule, noSuchExport, noMain, multipleMains, circularDependency]

def ofLabel? (s : String) : Option FailureCode := all.find? fun c => c.label = s

theorem ofLabel?_label (c : FailureCode) : ofLabel? c.label = some c := by cases c <;> decide

end FailureCode

/-- Names joined by arrows, each importing the next. -/
def arrowPath (names : List String) : String := " -> ".intercalate names

/-- What is known about a failure. -/
structure Report where
  code : FailureCode
  identifier : Option String := none
  source : Option String := none
  expectedKinds : Option (List String) := none
  actualKind : Option String := none
  expectedArgs : Option Int := none
  actualArgs : Option Int := none
  cycle : Option (List String) := none
  deriving DecidableEq, Repr

namespace Report

/-- How a fact is put into a message; one that is not known shows as `None`. -/
def fact : Option String → String
  | some s => s
  | none => "None"

def count : Option Int → String
  | some n => toString n
  | none => "None"

def message (r : Report) : String :=
  match r.code with
  | .notInScope => "Not in scope: " ++ fact r.identifier
  | .unassignedVariable => "Variable used before assignment: " ++ fact r.identifier
  | .notFunction => "Cannot call a value of kind " ++ fact r.actualKind
  | .notObject => "Cannot access a field on a value of kind " ++ fact r.actualKind
  | .typeMismatch =>
    "Type mismatch: expected " ++ " | ".intercalate (r.expectedKinds.getD []) ++ ", got " ++ fact r.actualKind
  | .arityMismatch =>
    "Arity mismatch: expected " ++ count r.expectedArgs ++ " arguments, got " ++ count r.actualArgs
  | .nativeReturnedFunction => "Native function " ++ fact r.identifier ++ " is declared to return a function"
  | .noSuchModule => "No such module: " ++ fact r.source
  | .noSuchExport => "Module " ++ fact r.source ++ " has no export named " ++ fact r.identifier
  | .noMain => "No module named Main"
  | .multipleMains => "More than one module named Main"
  | .circularDependency =>
    match r.cycle.getD [] with
    | [] => "Circular dependency between modules"
    | first :: rest => "Circular dependency: " ++ arrowPath (first :: rest ++ [first])

/-- The one-line form: the code, then the message. -/
def text (r : Report) : String := r.code.label ++ ": " ++ r.message

/-! ## The records that the causes give -/

def notInScope (name : String) : Report := { code := .notInScope, identifier := some name }

def unassignedVariable (name : String) : Report := { code := .unassignedVariable, identifier := some name }

def notFunction (actual : String) : Report := { code := .notFunction, actualKind := some actual }

def notObject (actual : String) : Report := { code := .notObject, actualKind := some actual }

def typeMismatch (expected : List String) (actual : String) : Report :=
  { code := .typeMismatch, expectedKinds := some expected, actualKind := some actual }

def arityMismatch (expected actual : Int) : Report :=
  { code := .arityMismatch, expectedArgs := some expected, actualArgs := some actual }

def nativeReturnedFunction (name : String) : Report := { code := .nativeReturnedFunction, identifier := some name }

def noSuchModule (source : String) : Report := { code := .noSuchModule, source := some source }

def noSuchExport (source name : String) : Report :=
  { code := .noSuchExport, source := some source, identifier := some name }

def noMain : Report := { code := .noMain }

def multipleMains : Report := { code := .multipleMains }

/-- An empty cycle says nothing and is left out. -/
def circularDependency (names : List String) : Report :=
  { code := .circularDependency, cycle := if names.isEmpty then none else some names }

end Report

/-- Why a run failed. -/
inductive Failure where
  | notInScope (name : String)
  | unassignedVariable (name : String)
  | notFunction (actual : Kind)
  | notObject (actual : Kind)
  | typeMismatch (expected : List Kind) (actual : Kind)
  | arityMismatch (expected actual : Nat)
  | nativeReturnedFunction (name : String)
  | noSuchModule (source : String)
  | noSuchExport (source name : String)
  | noMain
  | multipleMains
  | circularDependency (cycle : List String)
  deriving DecidableEq, Repr

namespace Failure

def report : Failure → Report
  | notInScope name => .notInScope name
  | unassignedVariable name => .unassignedVariable name
  | notFunction actual => .notFunction actual.label
  | notObject actual => .notObject actual.label
  | typeMismatch expected actual => .typeMismatch (expected.map Kind.label) actual.label
  | arityMismatch expected actual => .arityMismatch expected actual
  | nativeReturnedFunction name => .nativeReturnedFunction name
  | noSuchModule source => .noSuchModule source
  | noSuchExport source name => .noSuchExport source name
  | noMain => .noMain
  | multipleMains => .multipleMains
  | circularDependency cycle => .circularDependency cycle

def code (f : Failure) : FailureCode := f.report.code

def message (f : Failure) : String := f.report.message

def text (f : Failure) : String := f.report.text

end Failure
end Thicket
