import Thicket.Document.Error
import Thicket.Module
import Thicket.Text.Lines
/-!
# From documents to modules

Every node is an object with a kind and the properties that its kind asks for.  Properties are read in a fixed order,
and the first one that is not as it should be decides the error.  Properties that no kind asks for are ignored.
-/
namespace Thicket

/-- The kinds of statements in a document. -/
inductive StmtTag where
  | function | giveBack | declare | assign | branch | loop | setField | run | importFrom | classDeclaration
  deriving DecidableEq, Repr

namespace StmtTag

def name : StmtTag → String
  | function => "funcDecl"
  | giveBack => "return"
  | declare => "varDecl"
  | assign => "assignment"
  | branch => "if"
  | loop => "while"
  | setField => "set"
  | run => "expression"
  | importFrom => "import"
  | classDeclaration => "classDecl"

def all : List StmtTag :=
  [function, giveBack, declare, assign, branch, loop, setField, run, importFrom, classDeclaration]

def ofName? (s : String) : Option StmtTag := all.find? fun k => k.name = s

theorem ofName?_name (k : StmtTag) : ofName? k.name = some k := by cases k <;> decide

end StmtTag

/-- The kinds of expressions in a document. -/
inductive ExprTag where
  | binary | unary | number | boolean | string | null | object | call | ref | get
  deriving DecidableEq, Repr

namespace ExprTag

def name : ExprTag → String
  | binary => "binOp"
  | unary => "unaryOp"
  | number => "numberLit"
  | boolean => "booleanLit"
  | string => "stringLit"
  | null => "nullLit"
  | object => "objectLit"
  | call => "funcCall"
  | ref => "variableRef"
  | get => "get"

def all : List ExprTag := [binary, unary, number, boolean, string, null, object, call, ref, get]

def ofName? (s : String) : Option ExprTag := all.find? fun k => k.name = s

theorem ofName?_name (k : ExprTag) : ofName? k.name = some k := by cases k <;> decide

end ExprTag

/-! ## Operators -/

/-- The operators that may stand between two operands in a document. -/
def binaryOperators : List String :=
  ["add", "subtract", "multiply", "divide", "and", "or", "lessThan", "greaterThan", "lessThanEquals",
   "greaterThanEquals", "equals", "notEqual"]

/-- The operators that may stand before an operand in a document. -/
def unaryOperators : List String := ["not", "negative"]

/-! ## Properties -/

def property (key : String) (node : Table Json) : Load Json :=
  match Table.get? node key with
  | some v => .ok v
  | none => Load.fail (.missing key)

def stringAt (key : String) (node : Table Json) : Load String := do
  match ← property key node with
  | .str s => .ok s
  | v => Load.fail (.notString key v)

/-- The strings in a list that holds nothing else. -/
def allStrings? : List Json → Option (List String)
  | [] => some []
  | .str s :: rest => (allStrings? rest).map (s :: ·)
  | _ :: _ => none

def stringsAt (key : String) (node : Table Json) : Load (List String) := do
  match ← property key node with
  | .arr items =>
    match allStrings? items with
    | some names => .ok names
    | none => Load.fail (.notStringList key (.arr items))
  | v => Load.fail (.notStringList key v)

def numberAt (node : Table Json) : Load Float := do
  match ← property "value" node with
  | .float x => .ok x
  | .int n =>
    match Number.ofInt? n with
    | some x => .ok x
    | none => .error .overflow
  | v => Load.fail (.notNumber v)

def booleanAt (node : Table Json) : Load Bool := do
  match ← property "isTrue" node with
  | .bool b => .ok b
  | v => Load.fail (.notBoolean v)

def binaryOpAt (node : Table Json) : Load BinaryOp := do
  let name ← stringAt "binOp" node
  if name ∈ binaryOperators then .ok ⟨name⟩ else Load.fail (.unknownBinaryOp name)

def unaryOpAt (node : Table Json) : Load UnaryOp := do
  let name ← stringAt "unaryOp" node
  if name ∈ unaryOperators then .ok ⟨name⟩ else Load.fail (.unknownUnaryOp name)

def exprTagAt (node : Table Json) : Load ExprTag := do
  let name ← stringAt "expressionKind" node
  match ExprTag.ofName? name with
  | some tag => .ok tag
  | none => Load.fail (.unknownExpression name)

def stmtTagAt (node : Table Json) : Load StmtTag := do
  let name ← stringAt "statementKind" node
  match StmtTag.ofName? name with
  | some tag => .ok tag
  | none => Load.fail (.unknownStatement name)

/-! ## Expressions -/

mutual

def decodeExpr : Json → Load Expr
  | .obj node => do
    match ← exprTagAt node with
    | .binary => do
      let op ← binaryOpAt node
      let left ← exprAt "leftOperand" node
      let right ← exprAt "rightOperand" node
      return .binary op left right
    | .unary => do
      let op ← unaryOpAt node
      return .unary op (← exprAt "operand" node)
    | .number => return .number (← numberAt node)
    | .boolean => return .boolean (← booleanAt node)
    | .string => return .string (← stringAt "value" node)
    | .null => return .null
    | .object => return .object (← fieldsAt "fields" node)
    | .call => do
      let callee ← exprAt "callee" node
      return .call callee (← exprsAt "args" node)
    | .ref => return .ref (← stringAt "variableName" node)
    | .get => do
      let target ← exprAt "object" node
      return .get target (← stringAt "field" node)
  | v => Load.fail (.notObject .expression v)

def exprAt (key : String) : List (String × Json) → Load Expr
  | [] => Load.fail (.missing key)
  | (k, v) :: rest => if k = key then Load.under (.key key) (decodeExpr v) else exprAt key rest

def exprsAt (key : String) : List (String × Json) → Load (List Expr)
  | [] => Load.fail (.missing key)
  | (k, .arr items) :: rest => if k = key then decodeExprs key 0 items else exprsAt key rest
  | (k, v) :: rest => if k = key then Load.fail (.notList key v) else exprsAt key rest

def decodeExprs (key : String) (i : Nat) : List Json → Load (List Expr)
  | [] => .ok []
  | v :: rest => do
    let e ← Load.under (.item key i) (decodeExpr v)
    return e :: (← decodeExprs key (i + 1) rest)

def fieldsAt (key : String) : List (String × Json) → Load (List (String × Expr))
  | [] => Load.fail (.missing key)
  | (k, .arr items) :: rest => if k = key then decodeFields key 0 items else fieldsAt key rest
  | (k, v) :: rest => if k = key then Load.fail (.notList key v) else fieldsAt key rest

def decodeFields (key : String) (i : Nat) : List Json → Load (List (String × Expr))
  | [] => .ok []
  | v :: rest => do
    let f ← Load.under (.item key i) (decodeField v)
    return f :: (← decodeFields key (i + 1) rest)

def decodeField : Json → Load (String × Expr)
  | .obj node => do
    let name ← stringAt "fieldName" node
    return (name, ← exprAt "fieldValue" node)
  | v => Load.fail (.notObject .objectField v)

end

/-! ## Statements -/

/-- A property that may be left out, or be null. -/
def exprAt? (key : String) (node : Table Json) : Load (Option Expr) :=
  match Table.get? node key with
  | none | some .null => .ok none
  | some _ => some <$> exprAt key node

mutual

def decodeStmt : Json → Load Stmt
  | .obj node => do
    match ← stmtTagAt node with
    | .function => do
      let name ← stringAt "functionName" node
      let params ← stringsAt "argNames" node
      return .function name params (← blockAt "body" node)
    | .giveBack => return .giveBack (← exprAt? "returnedValue" node)
    | .declare => return .declare (← stringAt "variableName" node)
    | .assign => do
      let name ← stringAt "variableName" node
      return .assign name (← exprAt "variableValue" node)
    | .branch => do
      -- The second body comes first, but only if it is there.
      let whenFalse ← if Table.contains node "falseBody" then blockAt "falseBody" node else .ok []
      let condition ← exprAt "condition" node
      let whenTrue ← blockAt "trueBody" node
      return .branch condition whenTrue whenFalse
    | .loop => do
      let condition ← exprAt "condition" node
      return .loop condition (← blockAt "body" node)
    | .setField => do
      let target ← exprAt "object" node
      let field ← stringAt "field" node
      return .setField target field (← exprAt "value" node)
    | .run => return .run (← exprAt "expression" node)
    | .importFrom => do
      let source ← stringAt "moduleName" node
      return .importFrom source (← stringsAt "imports" node)
    | .classDeclaration => Load.fail .classDeclaration
  | v => Load.fail (.notObject .statement v)

def blockAt (key : String) : List (String × Json) → Load (List Stmt)
  | [] => Load.fail (.missing key)
  | (k, .arr items) :: rest => if k = key then decodeBlock key 0 items else blockAt key rest
  | (k, v) :: rest => if k = key then Load.fail (.notList key v) else blockAt key rest

def decodeBlock (key : String) (i : Nat) : List Json → Load (List Stmt)
  | [] => .ok []
  | v :: rest => do
    let s ← Load.under (.item key i) (decodeStmt v)
    return s :: (← decodeBlock key (i + 1) rest)

end

/-! ## Modules -/

def decodeModule : Json → Load Module
  | .obj node => do
    let name ← stringAt "name" node
    let body ← blockAt "body" node
    let exports ← if Table.contains node "exports" then stringsAt "exports" node else .ok []
    return ⟨name, body, exports⟩
  | v => Load.fail (.notObject .module v)

def decodeModules (i : Nat) : List Json → Load (List Module)
  | [] => .ok []
  | v :: rest => do
    let m ← Load.under (.index i) (decodeModule v)
    return m :: (← decodeModules (i + 1) rest)

/-- The modules of a document: one, or a list of them. -/
def loadModules : Json → Load (List Module)
  | .arr items => decodeModules 0 items
  | v => do return [← decodeModule v]

/-- The modules of a text. -/
def loadText (text : List Char) : Load (List Module) :=
  match Json.parse text with
  | .ok j => loadModules j
  | .error (.malformed problem rest) => Load.fail (.notJson problem (Json.lineOf text rest))
  | .error .tooManyDigits => .error .tooManyDigits
  | .error .loneSurrogate => .error .loneSurrogate

/-- The modules of a file. -/
def loadFile (bytes : ByteArray) : Load (List Module) :=
  match String.fromUTF8? bytes with
  | some s => loadText (Text.unifyNewlines s.toList)
  | none => .error .notText

end Thicket
