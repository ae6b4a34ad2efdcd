import Thicket.Json.Reader
import Thicket.Json.Text
/-!
# What can be wrong with a module document

A document is turned down for the first thing that is wrong with it, together with the path that leads there from the
root.  Paths grow from the inside: what is wrong is found at some node, and every node around it adds the step that
leads down to it.
-/
namespace Thicket

/-- A step from a node of a document to one inside it. -/
inductive Segment where
  | index (i : Nat)
  | key (name : String)
  /-- Item `i` of the list under a name. -/
  | item (name : String) (i : Nat)
  deriving DecidableEq, Repr

def Segment.text : Segment → String
  | index i => "[" ++ toString i ++ "]"
  | key name => "." ++ name
  | item name i => "." ++ name ++ "[" ++ toString i ++ "]"

/-- The steps from the root of a document to a node. -/
abbrev Path := List Segment

def Path.text (p : Path) : String := "$" ++ String.join (p.map Segment.text)

/-- What a node is read as. -/
inductive Role where
  | module | statement | expression | objectField
  deriving DecidableEq, Repr

def Role.name : Role → String
  | module => "Module"
  | statement => "Statement"
  | expression => "Expression"
  | objectField => "Object field"

inductive DocumentProblem where
  | notObject (role : Role) (value : Json)
  | missing (key : String)
  | notString (key : String) (value : Json)
  | notStringList (key : String) (value : Json)
  | notList (key : String) (value : Json)
  | notNumber (value : Json)
  | notBoolean (value : Json)
  | unknownStatement (kind : String)
  | unknownExpression (kind : String)
  | unknownBinaryOp (name : String)
  | unknownUnaryOp (name : String)
  /-- Classes have to be turned into plain functions and objects beforehand. -/
  | classDeclaration
  | notJson (problem : Json.ReadProblem) (line : Nat)

namespace DocumentProblem

def message : DocumentProblem → String
  | notObject role _ => role.name ++ " must be an object"
  | missing key => "missing '" ++ key ++ "' property"
  | notString key _ => "'" ++ key ++ "' must be a string"
  | notStringList key _ => "'" ++ key ++ "' must be a list of strings"
  | notList key _ => "'" ++ key ++ "' must be a list"
  | notNumber _ => "'value' must be a number"
  | notBoolean _ => "'isTrue' must be a boolean"
  | unknownStatement kind => "unknown statementKind '" ++ kind ++ "'"
  | unknownExpression kind => "unknown expressionKind '" ++ kind ++ "'"
  | unknownBinaryOp name => "unknown binOp '" ++ name ++ "'"
  | unknownUnaryOp name => "unknown unaryOp '" ++ name ++ "'"
  | classDeclaration => "class declarations must be desugared before evaluation"
  | notJson problem line => "invalid JSON: " ++ problem.message ++ " (line " ++ toString line ++ ")"

/-- The value that is wrong, where there is one. -/
def value : DocumentProblem → Json
  | notObject _ value | notString _ value | notStringList _ value | notList _ value | notNumber value
  | notBoolean value => value
  | unknownStatement kind | unknownExpression kind => .str kind
  | unknownBinaryOp name | unknownUnaryOp name => .str name
  | missing _ | classDeclaration | notJson _ _ => .null

end DocumentProblem

structure DocumentError where
  path : Path
  problem : DocumentProblem

/-- The full text of an error.  A null value is not worth showing. -/
def DocumentError.message (e : DocumentError) : String :=
  "Invalid module document at " ++ e.path.text ++ ": " ++ e.problem.message ++
    match e.problem.value with
    | .null => ""
    | value => " (value: " ++ value.literal ++ ")"

inductive LoadError where
  | malformed (e : DocumentError)
  /-- A number literal is an integer beyond the doubles. -/
  | overflow
  /-- The bytes of a file are not UTF-8. -/
  | notText
  /-- An integer has more digits than can be read. -/
  | tooManyDigits
  /-- A string holds half of a surrogate pair and is therefore no text. -/
  | loneSurrogate

/-- What reading a document gives. -/
abbrev Load := Except LoadError

namespace Load

/-- Turns down the node at hand. -/
def fail {α : Type} (problem : DocumentProblem) : Load α := .error (.malformed ⟨[], problem⟩)

/-- Adds the step that leads to the node where an error was found. -/
def under {α : Type} (step : Segment) : Load α → Load α
  | .error (.malformed e) => .error (.malformed { e with path := step :: e.path })
  | other => other

end Load
end Thicket
