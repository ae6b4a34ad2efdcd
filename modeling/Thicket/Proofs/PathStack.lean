import Thicket.Proofs.Walk
/-!
# Decoding with a stack of steps

An error is told with the path to the node where it was found.  In `decodeModule` that path grows from the inside: each
node around the place of an error adds the step that leads down to it.  A decoder may also know beforehand where it is.
It keeps the steps from the root to the node at hand on a stack, puts one more there when it goes down to a node inside,
and takes it off when it comes back, so that a step too many or too few would be in the paths of all errors after it.

The two ways come to the same, and every decoder leaves the stack as it found it (`Balanced`).
-/
namespace Thicket

/-- The same error, seen from where these steps begin. -/
def LoadError.underAll (steps : Path) : LoadError → LoadError
  | malformed e => malformed { e with path := steps ++ e.path }
  | overflow => overflow
  | notText => notText
  | tooManyDigits => tooManyDigits
  | loneSurrogate => loneSurrogate

theorem LoadError.underAll_concat (steps : Path) (step : Segment) (e : LoadError) :
    e.underAll (steps ++ [step]) = (e.under step).underAll steps := by
  cases e with
  | malformed e => simp [underAll, under]
  | overflow | notText | tooManyDigits | loneSurrogate => rfl

/-- A decoder with a stack of steps, the last one on top. -/
abbrev Stacked := EStateM LoadError Path

namespace Stacked

variable {α β : Type}

/-- Reads at the node to which the stack leads.  The stack stays as it is. -/
def read (r : Load α) : Stacked α := fun stack =>
  match r with
  | .ok a => .ok a stack
  | .error e => .error (e.underAll stack) stack

/-- Decodes a node inside the one at hand, one step further down, and comes back, also from an error. -/
def child (step : Segment) (decode : Stacked α) : Stacked α := fun stack =>
  match decode (stack ++ [step]) with
  | .ok a after => .ok a after.dropLast
  | .error e after => .error e after.dropLast

/-! ## The decoders -/

mutual

def expr : Json → Stacked Expr
  | .obj node => do
    match ← read (exprTagAt node) with
    | .binary => do
      let op ← read (binaryOpAt node)
      let left ← exprAt "leftOperand" node
      let right ← exprAt "rightOperand" node
      return .binary op left right
    | .unary => do
      let op ← read (unaryOpAt node)
      return .unary op (← exprAt "operand" node)
    | .number => return .number (← read (numberAt node))
    | .boolean => return .boolean (← read (booleanAt node))
    | .string => return .string (← read (stringAt "value" node))
    | .null => return .null
    | .object => return .object (← fieldsAt "fields" node)
    | .call => do
      let callee ← exprAt "callee" node
      return .call callee (← exprsAt "args" node)
    | .ref => return .ref (← read (stringAt "variableName" node))
    | .get => do
      let target ← exprAt "object" node
      return .get target (← read (stringAt "field" node))
  | v => read (Load.fail (.notObject .expression v))

def exprAt (key : String) : List (String × Json) → Stacked Expr
  | [] => read (Load.fail (.missing key))
  | (k, v) :: rest => if k = key then child (.key key) (expr v) else exprAt key rest

def exprsAt (key : String) : List (String × Json) → Stacked (List Expr)
  | [] => read (Load.fail (.missing key))
  | (k, .arr items) :: rest => if k = key then exprs key 0 items else exprsAt key rest
  | (k, v) :: rest => if k = key then read (Load.fail (.notList key v)) else exprsAt key rest

def exprs (key : String) (i : Nat) : List Json → Stacked (List Expr)
  | [] => pure []
  | v :: rest => do
    let e ← child (.item key i) (expr v)
    return e :: (← exprs key (i + 1) rest)

def fieldsAt (key : String) : List (String × Json) → Stacked (List (String × Expr))
  | [] => read (Load.fail (.missing key))
  | (k, .arr items) :: rest => if k = key then fields key 0 items else fieldsAt key rest
  | (k, v) :: rest => if k = key then read (Load.fail (.notList key v)) else fieldsAt key rest

def fields (key : String) (i : Nat) : List Json → Stacked (List (String × Expr))
  | [] => pure []
  | v :: rest => do
    let f ← child (.item key i) (field v)
    return f :: (← fields key (i + 1) rest)

def field : Json → Stacked (String × Expr)
  | .obj node => do
    let name ← read (stringAt "fieldName" node)
    return (name, ← exprAt "fieldValue" node)
  | v => read (Load.fail (.notObject .objectField v))

end

def exprAt? (key : String) (node : Table Json) : Stacked (Option Expr) :=
  match Table.get? node key with
  | none | some .null => pure none
  | some _ => some <$> exprAt key node

mutual

def stmt : Json → Stacked Stmt
  | .obj node => do
    match ← read (stmtTagAt node) with
    | .function => do
      let name ← read (stringAt "functionName" node)
      let params ← read (stringsAt "argNames" node)
      return .function name params (← blockAt "body" node)
    | .giveBack => return .giveBack (← exprAt? "returnedValue" node)
    | .declare => return .declare (← read (stringAt "variableName" node))
    | .assign => do
      let name ← read (stringAt "variableName" node)
      return .assign name (← exprAt "variableValue" node)
    | .branch => do
      let whenFalse ← if Table.contains node "falseBody" then blockAt "falseBody" node else pure []
      let condition ← exprAt "condition" node
      let whenTrue ← blockAt "trueBody" node
      return .branch condition whenTrue whenFalse
    | .loop => do
      let condition ← exprAt "condition" node
      return .loop condition (← blockAt "body" node)
    | .setField => do
      let target ← exprAt "object" node
      let name ← read (stringAt "field" node)
      return .setField target name (← exprAt "value" node)
    | .run => return .run (← exprAt "expression" node)
    | .importFrom => do
      let source ← read (stringAt "moduleName" node)
      return .importFrom source (← read (stringsAt "imports" node))
    | .classDeclaration => read (Load.fail .classDeclaration)
  | v => read (Load.fail (.notObject .statement v))

def blockAt (key : String) : List (String × Json) → Stacked (List Stmt)
  | [] => read (Load.fail (.missing key))
  | (k, .arr items) :: rest => if k = key then block key 0 items else blockAt key rest
  | (k, v) :: rest => if k = key then read (Load.fail (.notList key v)) else blockAt key rest

def block (key : String) (i : Nat) : List Json → Stacked (List Stmt)
  | [] => pure []
  | v :: rest => do
    let s ← child (.item key i) (stmt v)
    return s :: (← block key (i + 1) rest)

end

def module : Json → Stacked Module
  | .obj node => do
    let name ← read (stringAt "name" node)
    let body ← blockAt "body" node
    let exports ← if Table.contains node "exports" then read (stringsAt "exports" node) else pure []
    return ⟨name, body, exports⟩
  | v => read (Load.fail (.notObject .module v))

def modules (i : Nat) : List Json → Stacked (List Module)
  | [] => pure []
  | v :: rest => do
    let m ← child (.index i) (module v)
    return m :: (← modules (i + 1) rest)

/-- The modules of a document: one, or a list of them. -/
def document : Json → Stacked (List Module)
  | .arr items => modules 0 items
  | v => do return [← module v]

/-! ## Both ways are the same -/

theorem read_pure (a : α) : read (pure a) = pure a := rfl

theorem read_ok (a : α) : read (.ok a) = pure a := rfl

theorem read_bind (r : Load α) (f : α → Load β) : read (r >>= f) = read r >>= fun a => read (f a) := by
  cases r <;> rfl

theorem read_map (g : α → β) (r : Load α) : read (g <$> r) = g <$> read r := by
  cases r <;> rfl

theorem child_read (step : Segment) (r : Load α) : child step (read r) = read (Load.under step r) := by
  funext stack
  cases r with
  | ok a => simp [child, read, Load.under]
  | error e =>
    simp only [child, read, LoadError.underAll_concat, List.dropLast_concat]
    cases e <;> rfl

theorem ite_eq {c : Prop} [Decidable c] {f g : Stacked α} {r r' : Load α} (h : f = read r) (h' : g = read r') :
    (if c then f else g) = read (if c then r else r') := by
  split
  · exact h
  · exact h'

mutual

theorem expr_eq : ∀ v, expr v = read (decodeExpr v)
  | .obj node => by
    have hexpr := fun key => exprAt_eq key node
    have hexprs := exprsAt_eq "args" node
    have hfields := fieldsAt_eq "fields" node
    rw [expr, decodeExpr, read_bind]
    refine bind_congr fun tag => ?_
    cases tag <;> simp only [read_bind, read_pure, hexpr, hexprs, hfields]
  | .null | .bool _ | .int _ | .float _ | .str _ | .arr _ => rfl

theorem exprAt_eq (key : String) : ∀ node : List (String × Json), exprAt key node = read (Thicket.exprAt key node)
  | [] => rfl
  | (k, v) :: rest => by
    rw [exprAt, Thicket.exprAt, expr_eq v, child_read]
    exact ite_eq rfl (exprAt_eq key rest)

theorem exprsAt_eq (key : String) : ∀ node : List (String × Json), exprsAt key node = read (Thicket.exprsAt key node)
  | [] => rfl
  | (k, .arr items) :: rest => by
    rw [exprsAt, Thicket.exprsAt]
    exact ite_eq (exprs_eq key 0 items) (exprsAt_eq key rest)
  | (k, .null) :: rest | (k, .bool _) :: rest | (k, .int _) :: rest | (k, .float _) :: rest | (k, .str _) :: rest
  | (k, .obj _) :: rest => by
    simp only [exprsAt, Thicket.exprsAt]
    exact ite_eq rfl (exprsAt_eq key rest)

theorem exprs_eq (key : String) : ∀ (i : Nat) (items : List Json), exprs key i items = read (decodeExprs key i items)
  | _, [] => rfl
  | i, v :: rest => by
    rw [exprs, decodeExprs, expr_eq v, child_read, exprs_eq key (i + 1) rest, read_bind]
    simp only [read_bind, read_pure]

theorem fieldsAt_eq (key : String) : ∀ node : List (String × Json), fieldsAt key node = read (Thicket.fieldsAt key node)
  | [] => rfl
  | (k, .arr items) :: rest => by
    rw [fieldsAt, Thicket.fieldsAt]
    exact ite_eq (fields_eq key 0 items) (fieldsAt_eq key rest)
  | (k, .null) :: rest | (k, .bool _) :: rest | (k, .int _) :: rest | (k, .float _) :: rest | (k, .str _) :: rest
  | (k, .obj _) :: rest => by
    simp only [fieldsAt, Thicket.fieldsAt]
    exact ite_eq rfl (fieldsAt_eq key rest)

theorem fields_eq (key : String) : ∀ (i : Nat) (items : List Json), fields key i items = read (decodeFields key i items)
  | _, [] => rfl
  | i, v :: rest => by
    rw [fields, decodeFields, field_eq v, child_read, fields_eq key (i + 1) rest, read_bind]
    simp only [read_bind, read_pure]

theorem field_eq : ∀ v, field v = read (decodeField v)
  | .obj node => by
    rw [field, decodeField, exprAt_eq "fieldValue" node, read_bind]
    simp only [read_bind, read_pure]
  | .null | .bool _ | .int _ | .float _ | .str _ | .arr _ => rfl

end

theorem exprAt?_eq (key : String) (node : Table Json) : exprAt? key node = read (Thicket.exprAt? key node) := by
  rw [exprAt?, Thicket.exprAt?, exprAt_eq]
  cases Table.get? node key with
  | none => rfl
  | some v =>
    cases v with
    | null => rfl
    | _ => exact (read_map some _).symm

mutual

theorem stmt_eq : ∀ v, stmt v = read (decodeStmt v)
  | .obj node => by
    have hblock := fun key => blockAt_eq key node
    rw [stmt, decodeStmt, read_bind]
    refine bind_congr fun tag => ?_
    cases tag with
    | branch =>
      dsimp only
      split <;> simp only [read_bind, read_pure, read_ok, exprAt_eq, hblock]
    | _ => simp only [read_bind, read_pure, exprAt_eq, exprAt?_eq, hblock]
  | .null | .bool _ | .int _ | .float _ | .str _ | .arr _ => rfl

theorem blockAt_eq (key : String) : ∀ node : List (String × Json), blockAt key node = read (Thicket.blockAt key node)
  | [] => rfl
  | (k, .arr items) :: rest => by
    rw [blockAt, Thicket.blockAt]
    exact ite_eq (block_eq key 0 items) (blockAt_eq key rest)
  | (k, .null) :: rest | (k, .bool _) :: rest | (k, .int _) :: rest | (k, .float _) :: rest | (k, .str _) :: rest
  | (k, .obj _) :: rest => by
    simp only [blockAt, Thicket.blockAt]
    exact ite_eq rfl (blockAt_eq key rest)

theorem block_eq (key : String) : ∀ (i : Nat) (items : List Json), block key i items = read (decodeBlock key i items)
  | _, [] => rfl
  | i, v :: rest => by
    rw [block, decodeBlock, stmt_eq v, child_read, block_eq key (i + 1) rest, read_bind]
    simp only [read_bind, read_pure]

end

theorem module_eq : ∀ v, module v = read (decodeModule v)
  | .obj node => by
    rw [module, decodeModule]
    simp only [read_bind, blockAt_eq]
    refine bind_congr fun name => bind_congr fun body => ?_
    split <;> simp only [read_bind, read_pure, read_ok]
  | .null | .bool _ | .int _ | .float _ | .str _ | .arr _ => rfl

theorem modules_eq : ∀ (i : Nat) (items : List Json), modules i items = read (decodeModules i items)
  | _, [] => rfl
  | i, v :: rest => by
    rw [modules, decodeModules, module_eq, child_read, modules_eq (i + 1) rest]
    simp only [read_bind, read_pure]

theorem document_eq (d : Json) : document d = read (loadModules d) := by
  cases d with
  | arr items => exact modules_eq 0 items
  | _ => simp only [document, loadModules, module_eq, read_bind, read_pure]

/-! ## The stack is left as it was found -/

/-- Whatever is on the stack, the decoder leaves it there.  Otherwise it does what is done without a stack: it gives the
same, or it tells of the same error, with the path from the root. -/
structure Balanced (decode : Stacked α) (r : Load α) : Prop where
  ok_iff : ∀ {stack a after}, decode stack = .ok a after ↔ r = .ok a ∧ after = stack
  error_iff : ∀ {stack e after}, decode stack = .error e after ↔
    (∃ e', r = .error e' ∧ e = e'.underAll stack) ∧ after = stack

theorem balanced_of_eq {decode : Stacked α} {r : Load α} (h : decode = read r) : Balanced decode r := by
  subst h
  cases r <;> constructor <;> simp [read, eq_comm]

end Stacked

end Thicket
