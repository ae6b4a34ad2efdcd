import Thicket.Proofs.RoundTrip
/-!
# Decoding is a walk

What a node of a document has to hold is a matter of tables: for each kind of node its properties, in the order in which
they are read, each with its shape.  `looksAs` lists every look that reading a document by these tables takes, in order,
as if nothing that it sees could stop it.

Decoding does stop, and it does so at the first look that finds something wrong: its error is the `firstError` of the
looks (`decodeModule_error?`).  Reading one property after another is a walk along the looks at both
(`Load.error?_bind`); the rest follows the decoder.
-/
namespace Thicket

/-! ## Tables -/

/-- What the value of a property has to be. -/
inductive Shape where
  | text | texts | number | boolean | binaryOp | unaryOp | stmtTag | exprTag
  | node (role : Role)
  /-- A list of nodes. -/
  | nodes (role : Role)

/-- Whether a property has to be there. -/
inductive Need where
  | always
  /-- It may be left out. -/
  | optional
  /-- It may be left out, or be null. -/
  | nullable

structure Property where
  key : String
  shape : Shape
  need : Need

abbrev must (key : String) (shape : Shape) : Property := ⟨key, shape, .always⟩

def ExprTag.properties : ExprTag → List Property
  | binary => [must "binOp" .binaryOp, must "leftOperand" (.node .expression), must "rightOperand" (.node .expression)]
  | unary => [must "unaryOp" .unaryOp, must "operand" (.node .expression)]
  | number => [must "value" .number]
  | boolean => [must "isTrue" .boolean]
  | string => [must "value" .text]
  | null => []
  | object => [must "fields" (.nodes .objectField)]
  | call => [must "callee" (.node .expression), must "args" (.nodes .expression)]
  | ref => [must "variableName" .text]
  | get => [must "object" (.node .expression), must "field" .text]

def StmtTag.properties : StmtTag → List Property
  | function => [must "functionName" .text, must "argNames" .texts, must "body" (.nodes .statement)]
  | giveBack => [⟨"returnedValue", .node .expression, .nullable⟩]
  | declare => [must "variableName" .text]
  | assign => [must "variableName" .text, must "variableValue" (.node .expression)]
  | branch => [⟨"falseBody", .nodes .statement, .optional⟩, must "condition" (.node .expression),
      must "trueBody" (.nodes .statement)]
  | loop => [must "condition" (.node .expression), must "body" (.nodes .statement)]
  | setField => [must "object" (.node .expression), must "field" .text, must "value" (.node .expression)]
  | run => [must "expression" (.node .expression)]
  | importFrom => [must "moduleName" .text, must "imports" .texts]
  | classDeclaration => []

def exprTag? (node : Table Json) : Option ExprTag :=
  match Table.get? node "expressionKind" with
  | some (.str name) => ExprTag.ofName? name
  | _ => none

def stmtTag? (node : Table Json) : Option StmtTag :=
  match Table.get? node "statementKind" with
  | some (.str name) => StmtTag.ofName? name
  | _ => none

/-- The properties of a node, in the order in which they are read.  Those of a statement or an expression start with its
kind, on which the others depend. -/
def Role.properties (node : Table Json) : Role → List Property
  | module => [must "name" .text, must "body" (.nodes .statement), ⟨"exports", .texts, .optional⟩]
  | statement => must "statementKind" .stmtTag :: ((stmtTag? node).map StmtTag.properties).getD []
  | expression => must "expressionKind" .exprTag :: ((exprTag? node).map ExprTag.properties).getD []
  | objectField => [must "fieldName" .text, must "fieldValue" (.node .expression)]

/-- Whether the property is as it should be without a look at its value: it need not be there and is not. -/
def Property.excuses (p : Property) (found : Option Json) : Bool :=
  match p.need, found with
  | .optional, none | .nullable, none | .nullable, some .null => true
  | _, _ => false

/-! ## Looks -/

/-- What a look is about. -/
inductive Question where
  /-- Is this a node? -/
  | node (role : Role) (found : Json)
  /-- Is the property as it should be? -/
  | property (p : Property) (found : Option Json)

/-- A look at the node to which `path` leads. -/
structure Look where
  path : Path
  question : Question

def Look.under (step : Segment) (x : Look) : Look := { x with path := step :: x.path }

mutual

/-- The looks at a document that is read as a node. -/
def looksAs (role : Role) : Json → List Look
  | .obj node => ⟨[], .node role (.obj node)⟩ :: (role.properties node).flatMap fun p => looksAt p node
  | v => [⟨[], .node role v⟩]

/-- The looks at a property of a node, and at the nodes in it. -/
def looksAt (p : Property) : List (String × Json) → List Look
  | [] => [⟨[], .property p none⟩]
  | (k, v) :: rest =>
    if k = p.key then
      ⟨[], .property p (some v)⟩ ::
        if p.excuses (some v) then []
        else
          match p.shape with
          | .node role => (looksAs role v).map (Look.under (.key p.key))
          | .nodes role => looksInList role p.key v
          | _ => []
    else looksAt p rest

def looksInList (role : Role) (key : String) : Json → List Look
  | .arr items => looksInItems role key 0 items
  | _ => []

def looksInItems (role : Role) (key : String) (i : Nat) : List Json → List Look
  | [] => []
  | v :: rest => (looksAs role v).map (Look.under (.item key i)) ++ looksInItems role key (i + 1) rest

end

/-- What is wrong with a value that is to have this shape.  What is wrong inside it is found by other looks. -/
def Shape.problem? (key : String) : Shape → Json → Option DocumentProblem
  | text, .str _ => none
  | texts, .arr items => if (allStrings? items).isSome then none else some (.notStringList key (.arr items))
  | texts, v => some (.notStringList key v)
  | number, .int _ | number, .float _ => none
  | number, v => some (.notNumber v)
  | boolean, .bool _ => none
  | boolean, v => some (.notBoolean v)
  | binaryOp, .str name => if name ∈ binaryOperators then none else some (.unknownBinaryOp name)
  | unaryOp, .str name => if name ∈ unaryOperators then none else some (.unknownUnaryOp name)
  | exprTag, .str name => if (ExprTag.ofName? name).isSome then none else some (.unknownExpression name)
  | stmtTag, .str name =>
    match StmtTag.ofName? name with
    | none => some (.unknownStatement name)
    | some .classDeclaration => some .classDeclaration
    | some _ => none
  | text, v | binaryOp, v | unaryOp, v | exprTag, v | stmtTag, v => some (.notString key v)
  | nodes _, .arr _ | node _, _ => none
  | nodes _, v => some (.notList key v)

namespace Question

/-- What is wrong with the form of the document here. -/
def problem? : Question → Option DocumentProblem
  | node _ (.obj _) => none
  | node role v => some (.notObject role v)
  | property p found =>
    if p.excuses found then none
    else
      match found with
      | none => some (.missing p.key)
      | some v => p.shape.problem? p.key v

/-- The whole number that is met here as a number literal. -/
def integer? : Question → Option Int
  | node _ _ => none
  | property p found =>
    match p.shape, found with
    | .number, some (.int n) => some n
    | _, _ => none

end Question

/-- The error to which a look leads. -/
def Look.error? (x : Look) : Option LoadError :=
  match x.question.problem? with
  | some problem => some (.malformed ⟨x.path, problem⟩)
  | none =>
    match x.question.integer? with
    | some n => if (Number.ofInt? n).isNone then some .overflow else none
    | none => none

/-- The error to which the first of these looks leads that leads to one. -/
def firstError (looks : List Look) : Option LoadError := looks.findSome? Look.error?

/-- The looks into the value of a property of this shape. -/
def Shape.looks (key : String) (v : Json) : Shape → List Look
  | node role => (looksAs role v).map (Look.under (.key key))
  | nodes role => looksInList role key v
  | _ => []

section

variable {p : Property} {node : Table Json}

theorem looksAt_of_none (h : Table.get? node p.key = none) : looksAt p node = [⟨[], .property p none⟩] := by
  induction node with
  | nil => rw [looksAt]
  | cons entry rest ih =>
    obtain ⟨k, v⟩ := entry
    rw [Table.get?] at h
    by_cases hk : k = p.key
    · rw [if_pos hk] at h
      cases h
    · rw [if_neg hk] at h
      rw [looksAt, if_neg hk, ih h]

theorem looksAt_of_get? {v : Json} (h : Table.get? node p.key = some v) :
    looksAt p node =
      ⟨[], .property p (some v)⟩ :: if p.excuses (some v) then [] else p.shape.looks p.key v := by
  induction node with
  | nil => cases h
  | cons entry rest ih =>
    obtain ⟨k, w⟩ := entry
    rw [Table.get?] at h
    by_cases hk : k = p.key
    · rw [if_pos hk, Option.some.injEq] at h
      subst h
      rw [looksAt, if_pos hk]
      cases p.shape <;> rfl
    · rw [if_neg hk] at h
      rw [looksAt, if_neg hk, ih h]

end

/-! ## Decoding is the walk -/

/-- The error in which reading a document ends. -/
def Load.error? {α : Type} : Load α → Option LoadError
  | .ok _ => none
  | .error e => some e

theorem firstError_append (a b : List Look) : firstError (a ++ b) = (firstError a).or (firstError b) :=
  List.findSome?_append

/-- Reading one thing after another is a walk along the looks of both. -/
theorem Load.error?_bind {α β : Type} {r : Load α} {k : α → Load β} {a b : List Look}
    (h : r.error? = firstError a) (hk : ∀ x, r = .ok x → (k x).error? = firstError b) :
    (r >>= k).error? = firstError (a ++ b) := by
  rw [firstError_append, ← h]
  cases r with
  | ok x => exact hk x rfl
  | error e => rfl

theorem Load.error?_bind_ok {α β : Type} {r : Load α} {g : α → β} {a : List Look} (h : r.error? = firstError a) :
    (r >>= fun x => pure (g x)).error? = firstError a := by
  rw [← h]
  cases r <;> rfl

/-- The same error, seen from one step further out. -/
def LoadError.under (step : Segment) : LoadError → LoadError
  | malformed e => malformed { e with path := step :: e.path }
  | overflow => overflow
  | notText => notText
  | tooManyDigits => tooManyDigits
  | loneSurrogate => loneSurrogate

theorem Look.error?_under (step : Segment) (x : Look) :
    (x.under step).error? = x.error?.map (LoadError.under step) := by
  rw [Look.error?, Look.error?, Look.under]
  cases x.question.problem? with
  | some problem => rfl
  | none =>
    cases x.question.integer? with
    | none => rfl
    | some n =>
      dsimp only
      split <;> rfl

theorem firstError_map_under (step : Segment) (a : List Look) :
    firstError (a.map (Look.under step)) = (firstError a).map (LoadError.under step) := by
  simp only [firstError, List.findSome?_map, List.map_findSome?]
  exact congrArg (fun f => a.findSome? f) (funext (Look.error?_under step))

theorem Load.error?_under {α : Type} {r : Load α} {a : List Look} (step : Segment) (h : r.error? = firstError a) :
    (Load.under step r).error? = firstError (a.map (Look.under step)) := by
  rw [firstError_map_under, ← h]
  cases r with
  | ok x => rfl
  | error e => cases e <;> rfl

theorem firstError_leaf {key : String} {shape : Shape} {node : Table Json} {v : Json} (hleaf : shape.looks key v = [])
    (h : Table.get? node key = some v) :
    firstError (looksAt (must key shape) node) = Look.error? ⟨[], .property (must key shape) (some v)⟩ := by
  rw [looksAt_of_get? (p := must key shape) h, hleaf, ite_self, firstError, List.findSome?_singleton]

/-- A property that has to be there, with nothing inside it to look at. -/
theorem error?_property {α : Type} {read : Json → Load α} {key : String} {shape : Shape} (node : Table Json)
    (hleaf : ∀ v, shape.looks key v = [])
    (hread : ∀ v, (read v).error? = Look.error? ⟨[], .property (must key shape) (some v)⟩) :
    (property key node >>= read).error? = firstError (looksAt (must key shape) node) := by
  cases h : Table.get? node key with
  | none =>
    rw [looksAt_of_none (p := must key shape) h, property, h]
    rfl
  | some v => rw [firstError_leaf (hleaf v) h, property_of_get? h, Load.ok_bind, hread]

/-- A property that is read only if it is there. -/
theorem error?_optional {α : Type} {r : Load α} (otherwise : α) {key : String} {shape : Shape} {node : Table Json}
    (h : r.error? = firstError (looksAt (must key shape) node)) :
    (if Table.contains node key then r else .ok otherwise).error? =
      firstError (looksAt ⟨key, shape, .optional⟩ node) := by
  rw [Table.contains]
  cases hv : Table.get? node key with
  | none =>
    rw [looksAt_of_none (p := ⟨key, shape, .optional⟩) hv]
    cases shape <;> rfl
  | some v =>
    rw [looksAt_of_get? (p := must key shape) hv] at h
    rw [looksAt_of_get? (p := ⟨key, shape, .optional⟩) hv, Option.isSome_some, if_pos rfl, h]
    rfl

theorem stringAt_error? (key : String) (node : Table Json) :
    (stringAt key node).error? = firstError (looksAt (must key .text) node) :=
  error?_property node (fun _ => rfl) fun v => by cases v <;> rfl

theorem stringsAt_error? (key : String) (node : Table Json) :
    (stringsAt key node).error? = firstError (looksAt (must key .texts) node) :=
  error?_property node (fun _ => rfl) fun v => by
    cases v with
    | arr items =>
      dsimp only [Look.error?, Question.problem?, Property.excuses, must, Shape.problem?]
      cases allStrings? items <;> rfl
    | _ => rfl

theorem numberAt_error? (node : Table Json) :
    (numberAt node).error? = firstError (looksAt (must "value" .number) node) :=
  error?_property node (fun _ => rfl) fun v => by
    cases v with
    | int n =>
      dsimp only [Look.error?, Question.problem?, Question.integer?, Property.excuses, must, Shape.problem?]
      cases Number.ofInt? n <;> rfl
    | _ => rfl

theorem booleanAt_error? (node : Table Json) :
    (booleanAt node).error? = firstError (looksAt (must "isTrue" .boolean) node) :=
  error?_property node (fun _ => rfl) fun v => by cases v <;> rfl

theorem binaryOpAt_error? (node : Table Json) :
    (binaryOpAt node).error? = firstError (looksAt (must "binOp" .binaryOp) node) := by
  rw [binaryOpAt, stringAt, bind_assoc]
  refine error?_property node (fun _ => rfl) fun v => ?_
  cases v with
  | str name =>
    dsimp only [Look.error?, Question.problem?, Property.excuses, must, Shape.problem?, Load.ok_bind]
    split <;> rfl
  | _ => rfl

theorem unaryOpAt_error? (node : Table Json) :
    (unaryOpAt node).error? = firstError (looksAt (must "unaryOp" .unaryOp) node) := by
  rw [unaryOpAt, stringAt, bind_assoc]
  refine error?_property node (fun _ => rfl) fun v => ?_
  cases v with
  | str name =>
    dsimp only [Look.error?, Question.problem?, Property.excuses, must, Shape.problem?, Load.ok_bind]
    split <;> rfl
  | _ => rfl

theorem exprTagAt_error? (node : Table Json) :
    (exprTagAt node).error? = firstError (looksAt (must "expressionKind" .exprTag) node) := by
  rw [exprTagAt, stringAt, bind_assoc]
  refine error?_property node (fun _ => rfl) fun v => ?_
  cases v with
  | str name =>
    dsimp only [Look.error?, Question.problem?, Property.excuses, must, Shape.problem?, Load.ok_bind]
    cases ExprTag.ofName? name <;> rfl
  | _ => rfl

theorem exprTag?_eq_some {node : Table Json} {tag : ExprTag} (h : exprTagAt node = .ok tag) :
    exprTag? node = some tag := by
  rw [exprTagAt, stringAt, property] at h
  rw [exprTag?]
  cases hv : Table.get? node "expressionKind" with
  | none =>
    rw [hv] at h
    cases h
  | some v =>
    rw [hv] at h
    cases v with
    | str name =>
      dsimp only [Load.ok_bind] at h ⊢
      cases hname : ExprTag.ofName? name with
      | none =>
        rw [hname] at h
        cases h
      | some found =>
        rw [hname] at h
        cases h
        rfl
    | _ => cases h

/-- Reading one property and then the ones after it. -/
theorem error?_next {α β : Type} {r : Load α} {k : α → Load β} {p : Property} {ps : List Property} {node : Table Json}
    (h : r.error? = firstError (looksAt p node))
    (hk : ∀ x, r = .ok x → (k x).error? = firstError (ps.flatMap fun p => looksAt p node)) :
    (r >>= k).error? = firstError ((p :: ps).flatMap fun p => looksAt p node) :=
  Load.error?_bind h hk

theorem error?_nextOptional {α β : Type} {r : Load α} {otherwise : α} {k : α → Load β} {key : String} {shape : Shape}
    {ps : List Property} {node : Table Json} (h : r.error? = firstError (looksAt (must key shape) node))
    (hk : ∀ x, (k x).error? = firstError (ps.flatMap fun p => looksAt p node)) :
    (if Table.contains node key then r >>= k else .ok otherwise >>= k).error? =
      firstError ((⟨key, shape, .optional⟩ :: ps).flatMap fun p => looksAt p node) := by
  have hnext := error?_next (error?_optional otherwise h) fun x _ => hk x
  cases hc : Table.contains node key <;> rwa [hc] at hnext

theorem error?_ite {α : Type} {c : Prop} [Decidable c] {r r' : Load α} {a a' : List Look} (h : r.error? = firstError a)
    (h' : r'.error? = firstError a') : (if c then r else r').error? = firstError (if c then a else a') := by
  split
  · exact h
  · exact h'

mutual

theorem decodeExpr_error? : ∀ v, (decodeExpr v).error? = firstError (looksAs .expression v)
  | .obj node => by
    rw [decodeExpr, looksAs]
    refine error?_next (exprTagAt_error? node) fun tag htag => ?_
    rw [exprTag?_eq_some htag]
    cases tag with
    | binary =>
      exact error?_next (binaryOpAt_error? node) fun _ _ => error?_next (exprAt_error? "leftOperand" node) fun _ _ =>
        error?_next (exprAt_error? "rightOperand" node) fun _ _ => rfl
    | unary =>
      exact error?_next (unaryOpAt_error? node) fun _ _ => error?_next (exprAt_error? "operand" node) fun _ _ => rfl
    | number => exact error?_next (numberAt_error? node) fun _ _ => rfl
    | boolean => exact error?_next (booleanAt_error? node) fun _ _ => rfl
    | string => exact error?_next (stringAt_error? "value" node) fun _ _ => rfl
    | null => rfl
    | object => exact error?_next (fieldsAt_error? "fields" node) fun _ _ => rfl
    | call =>
      exact error?_next (exprAt_error? "callee" node) fun _ _ => error?_next (exprsAt_error? "args" node) fun _ _ => rfl
    | ref => exact error?_next (stringAt_error? "variableName" node) fun _ _ => rfl
    | get =>
      exact error?_next (exprAt_error? "object" node) fun _ _ =>
        error?_next (stringAt_error? "field" node) fun _ _ => rfl
  | .null | .bool _ | .int _ | .float _ | .str _ | .arr _ => rfl

theorem exprAt_error? (key : String) : ∀ node : List (String × Json),
    (exprAt key node).error? = firstError (looksAt (must key (.node .expression)) node)
  | [] => rfl
  | (k, v) :: rest => by
    rw [exprAt, looksAt]
    exact error?_ite (Load.error?_under (.key key) (decodeExpr_error? v)) (exprAt_error? key rest)

theorem exprsAt_error? (key : String) : ∀ node : List (String × Json),
    (exprsAt key node).error? = firstError (looksAt (must key (.nodes .expression)) node)
  | [] => rfl
  | (k, .arr items) :: rest => by
    rw [exprsAt, looksAt]
    exact error?_ite (decodeExprs_error? key 0 items) (exprsAt_error? key rest)
  | (k, .null) :: rest | (k, .bool _) :: rest | (k, .int _) :: rest | (k, .float _) :: rest | (k, .str _) :: rest
  | (k, .obj _) :: rest => by
    simp only [exprsAt, looksAt]
    exact error?_ite rfl (exprsAt_error? key rest)

theorem decodeExprs_error? (key : String) : ∀ (i : Nat) (items : List Json),
    (decodeExprs key i items).error? = firstError (looksInItems .expression key i items)
  | _, [] => rfl
  | i, v :: rest => by
    rw [decodeExprs, looksInItems]
    exact Load.error?_bind (Load.error?_under (.item key i) (decodeExpr_error? v)) fun _ _ =>
      Load.error?_bind_ok (decodeExprs_error? key (i + 1) rest)

theorem fieldsAt_error? (key : String) : ∀ node : List (String × Json),
    (fieldsAt key node).error? = firstError (looksAt (must key (.nodes .objectField)) node)
  | [] => rfl
  | (k, .arr items) :: rest => by
    rw [fieldsAt, looksAt]
    exact error?_ite (decodeFields_error? key 0 items) (fieldsAt_error? key rest)
  | (k, .null) :: rest | (k, .bool _) :: rest | (k, .int _) :: rest | (k, .float _) :: rest | (k, .str _) :: rest
  | (k, .obj _) :: rest => by
    simp only [fieldsAt, looksAt]
    exact error?_ite rfl (fieldsAt_error? key rest)

theorem decodeFields_error? (key : String) : ∀ (i : Nat) (items : List Json),
    (decodeFields key i items).error? = firstError (looksInItems .objectField key i items)
  | _, [] => rfl
  | i, v :: rest => by
    rw [decodeFields, looksInItems]
    exact Load.error?_bind (Load.error?_under (.item key i) (decodeField_error? v)) fun _ _ =>
      Load.error?_bind_ok (decodeFields_error? key (i + 1) rest)

theorem decodeField_error? : ∀ v, (decodeField v).error? = firstError (looksAs .objectField v)
  | .obj node => by
    rw [decodeField, looksAs]
    exact error?_next (stringAt_error? "fieldName" node) fun _ _ =>
      error?_next (exprAt_error? "fieldValue" node) fun _ _ => rfl
  | .null | .bool _ | .int _ | .float _ | .str _ | .arr _ => rfl

end

theorem exprAt?_error? (key : String) (node : Table Json) :
    (exprAt? key node).error? = firstError (looksAt ⟨key, .node .expression, .nullable⟩ node) := by
  have hexpr := exprAt_error? key node
  cases h : Table.get? node key with
  | none =>
    rw [looksAt_of_none (p := ⟨key, .node .expression, .nullable⟩) h, exprAt?, h]
    rfl
  | some v =>
    rw [looksAt_of_get? (p := must key (.node .expression)) h] at hexpr
    rw [looksAt_of_get? (p := ⟨key, .node .expression, .nullable⟩) h, exprAt?, h]
    cases v with
    | null => rfl
    | _ => exact Load.error?_bind_ok (g := some) hexpr

/-- The kind of a statement, and what is read after it.  A class declaration has a kind and is turned down all the
same, before anything else of it is looked at. -/
theorem error?_stmtTagAt {α : Type} {k : StmtTag → Load α} {node : Table Json}
    (hclass : k .classDeclaration = Load.fail .classDeclaration)
    (hk : ∀ tag, tag ≠ .classDeclaration →
      (k tag).error? = firstError (tag.properties.flatMap fun p => looksAt p node)) :
    (stmtTagAt node >>= k).error? = firstError ((Role.statement.properties node).flatMap fun p => looksAt p node) := by
  rw [Role.properties, List.flatMap_cons, firstError_append, stmtTag?, stmtTagAt, stringAt, property]
  cases hv : Table.get? node "statementKind" with
  | none =>
    rw [looksAt_of_none (p := must "statementKind" .stmtTag) hv]
    rfl
  | some v =>
    rw [firstError_leaf rfl hv]
    cases v with
    | str name =>
      dsimp only [Load.ok_bind, Look.error?, Question.problem?, Property.excuses, Shape.problem?]
      cases hname : StmtTag.ofName? name with
      | none => rfl
      | some tag =>
        by_cases htag : tag = .classDeclaration
        · subst htag
          rw [Load.ok_bind, hclass]
          rfl
        · rw [Load.ok_bind, hk tag htag]
          cases tag with
          | classDeclaration => exact absurd rfl htag
          | _ => rfl
    | _ => rfl

mutual

theorem decodeStmt_error? : ∀ v, (decodeStmt v).error? = firstError (looksAs .statement v)
  | .obj node => by
    rw [decodeStmt, looksAs]
    refine error?_stmtTagAt rfl fun tag htag => ?_
    cases tag with
    | function =>
      exact error?_next (stringAt_error? "functionName" node) fun _ _ =>
        error?_next (stringsAt_error? "argNames" node) fun _ _ =>
          error?_next (blockAt_error? "body" node) fun _ _ => rfl
    | giveBack => exact error?_next (exprAt?_error? "returnedValue" node) fun _ _ => rfl
    | declare => exact error?_next (stringAt_error? "variableName" node) fun _ _ => rfl
    | assign =>
      exact error?_next (stringAt_error? "variableName" node) fun _ _ =>
        error?_next (exprAt_error? "variableValue" node) fun _ _ => rfl
    | branch =>
      exact error?_nextOptional (blockAt_error? "falseBody" node) fun _ =>
        error?_next (exprAt_error? "condition" node) fun _ _ =>
          error?_next (blockAt_error? "trueBody" node) fun _ _ => rfl
    | loop =>
      exact error?_next (exprAt_error? "condition" node) fun _ _ =>
        error?_next (blockAt_error? "body" node) fun _ _ => rfl
    | setField =>
      exact error?_next (exprAt_error? "object" node) fun _ _ => error?_next (stringAt_error? "field" node) fun _ _ =>
        error?_next (exprAt_error? "value" node) fun _ _ => rfl
    | run => exact error?_next (exprAt_error? "expression" node) fun _ _ => rfl
    | importFrom =>
      exact error?_next (stringAt_error? "moduleName" node) fun _ _ =>
        error?_next (stringsAt_error? "imports" node) fun _ _ => rfl
    | classDeclaration => exact absurd rfl htag
  | .null | .bool _ | .int _ | .float _ | .str _ | .arr _ => rfl

theorem blockAt_error? (key : String) : ∀ node : List (String × Json),
    (blockAt key node).error? = firstError (looksAt (must key (.nodes .statement)) node)
  | [] => rfl
  | (k, .arr items) :: rest => by
    rw [blockAt, looksAt]
    exact error?_ite (decodeBlock_error? key 0 items) (blockAt_error? key rest)
  | (k, .null) :: rest | (k, .bool _) :: rest | (k, .int _) :: rest | (k, .float _) :: rest | (k, .str _) :: rest
  | (k, .obj _) :: rest => by
    simp only [blockAt, looksAt]
    exact error?_ite rfl (blockAt_error? key rest)

theorem decodeBlock_error? (key : String) : ∀ (i : Nat) (items : List Json),
    (decodeBlock key i items).error? = firstError (looksInItems .statement key i items)
  | _, [] => rfl
  | i, v :: rest => by
    rw [decodeBlock, looksInItems]
    exact Load.error?_bind (Load.error?_under (.item key i) (decodeStmt_error? v)) fun _ _ =>
      Load.error?_bind_ok (decodeBlock_error? key (i + 1) rest)

end

theorem decodeModule_error? : ∀ v, (decodeModule v).error? = firstError (looksAs .module v)
  | .obj node => by
    rw [decodeModule, looksAs]
    exact error?_next (stringAt_error? "name" node) fun _ _ => error?_next (blockAt_error? "body" node) fun _ _ =>
      error?_nextOptional (stringsAt_error? "exports" node) fun _ => rfl
  | .null | .bool _ | .int _ | .float _ | .str _ | .arr _ => rfl

/-! ## Several modules -/

/-- The looks at the documents of modules, the first of them in place `i` of a list. -/
def looksInDocuments (i : Nat) : List Json → List Look
  | [] => []
  | v :: rest => (looksAs .module v).map (Look.under (.index i)) ++ looksInDocuments (i + 1) rest

/-- The looks at a document that holds one module, or a list of them. -/
def documentLooks : Json → List Look
  | .arr items => looksInDocuments 0 items
  | v => looksAs .module v

theorem decodeModules_error? : ∀ (i : Nat) (items : List Json),
    (decodeModules i items).error? = firstError (looksInDocuments i items)
  | _, [] => rfl
  | i, v :: rest => by
    rw [decodeModules, looksInDocuments]
    exact Load.error?_bind (Load.error?_under (.index i) (decodeModule_error? v)) fun _ _ =>
      Load.error?_bind_ok (decodeModules_error? (i + 1) rest)

theorem loadModules_error? (d : Json) : (loadModules d).error? = firstError (documentLooks d) := by
  cases d with
  | arr items => exact decodeModules_error? 0 items
  | _ => exact Load.error?_bind_ok (decodeModule_error? _)

end Thicket
