/-!
# The language

A program is a list of modules.  A module runs its body from top to bottom and offers the names in `exports` to the
modules that import from it.  Names are plain strings; the two names with a meaning of their own are `Main`, where a
program starts, and `Native`, from which the functions of the host are imported.

Nodes of a program carry a kind, and operators are told apart by their names.  A program that is put together by hand
may hold a kind or an operator that nothing is known about; one that was loaded from a document holds none.
-/
namespace Thicket

/-- The module in which a program starts. -/
def mainName : String := "Main"

/-- The name under which the functions of the host are imported.  It is never a module of the program. -/
def nativeName : String := "Native"

/-- An operator between two operands, by its name.  Which names mean something is for the evaluator to say. -/
structure BinaryOp where
  name : String
  deriving DecidableEq, Repr

/-- An operator before its operand, by its name. -/
structure UnaryOp where
  name : String
  deriving DecidableEq, Repr

/-- The kinds of expressions that there are, by their names. -/
def exprKinds : List String :=
  ["numberLit", "booleanLit", "stringLit", "nullLit", "objectLit", "variableRef", "get", "binOp", "unaryOp", "funcCall"]

/-- The kinds of statements that there are, by their names. -/
def stmtKinds : List String :=
  ["expression", "return", "varDecl", "assignment", "funcDecl", "if", "while", "set", "import"]

inductive Expr where
  | number (x : Float)
  | boolean (b : Bool)
  | string (s : String)
  | null
  /-- An object literal.  The fields are evaluated in order, and a name may be given more than once. -/
  | object (fields : List (String × Expr))
  | ref (name : String)
  | get (target : Expr) (field : String)
  | binary (op : BinaryOp) (left right : Expr)
  | unary (op : UnaryOp) (operand : Expr)
  /-- A call.  The callee is an expression of its own, so that `f()()` can be written. -/
  | call (callee : Expr) (args : List Expr)
  /-- A node of some other kind.  The evaluator does not know what to do with it. -/
  | other (kind : String) (unknown : kind ∉ exprKinds)

inductive Stmt where
  | function (name : String) (params : List String) (body : List Stmt)
  /-- Without a value, `null` is returned. -/
  | giveBack (value : Option Expr)
  | declare (name : String)
  | assign (name : String) (value : Expr)
  | branch (condition : Expr) (whenTrue whenFalse : List Stmt)
  | loop (condition : Expr) (body : List Stmt)
  | setField (target : Expr) (field : String) (value : Expr)
  | run (e : Expr)
  | importFrom (source : String) (names : List String)
  /-- A node of some other kind. -/
  | other (kind : String) (unknown : kind ∉ stmtKinds)

structure Module where
  name : String
  body : List Stmt
  exports : List String

/-- The first module of a name: the only one that the name ever means. -/
def findModule? (modules : List Module) (name : String) : Option Module :=
  modules.find? fun m => m.name = name

end Thicket
