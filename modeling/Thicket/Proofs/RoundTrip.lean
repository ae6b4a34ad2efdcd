import Thicket.Document.Decode
import Thicket.Proofs.Labels
/-!
# A module is read back from its document

`Module.document` writes a module as a document: every node an object with its kind and the properties of its kind.
Decoding undoes that (`decode_document`), for every module and every list of modules, as long as they are made of the
kinds and the operators that documents know.  Nothing else is ever decoded (`written_of_decodeModule`).

A `return` without a value may be written in two ways, with a null or without the property.  Which one is up to the
writer, anew at every place of the document, so the writer is given a function of the place.

Decoding looks properties up by their names.  What it finds under a name is said once for each kind of property
(`stringAt_of_get?` and the lemmas after it); a node is then read property by property.
-/
namespace Thicket

/-! ## Writing -/

def stringDocuments (names : List String) : Json := .arr (names.map .str)

mutual

def Expr.document : Expr → Json
  | .number x => .obj [("expressionKind", .str "numberLit"), ("value", .float x)]
  | .boolean b => .obj [("expressionKind", .str "booleanLit"), ("isTrue", .bool b)]
  | .string s => .obj [("expressionKind", .str "stringLit"), ("value", .str s)]
  | .null => .obj [("expressionKind", .str "nullLit")]
  | .object fields => .obj [("expressionKind", .str "objectLit"), ("fields", .arr (fieldDocuments fields))]
  | .ref name => .obj [("expressionKind", .str "variableRef"), ("variableName", .str name)]
  | .get target field => .obj [("expressionKind", .str "get"), ("object", target.document), ("field", .str field)]
  | .binary op left right =>
    .obj [("expressionKind", .str "binOp"), ("binOp", .str op.name), ("leftOperand", left.document),
      ("rightOperand", right.document)]
  | .unary op operand =>
    .obj [("expressionKind", .str "unaryOp"), ("unaryOp", .str op.name), ("operand", operand.document)]
  | .call callee args =>
    .obj [("expressionKind", .str "funcCall"), ("callee", callee.document), ("args", .arr (exprDocuments args))]
  | .other kind _ => .obj [("expressionKind", .str kind)]

def exprDocuments : List Expr → List Json
  | [] => []
  | e :: rest => e.document :: exprDocuments rest

def fieldDocuments : List (String × Expr) → List Json
  | [] => []
  | (name, e) :: rest => .obj [("fieldName", .str name), ("fieldValue", e.document)] :: fieldDocuments rest

end

mutual

/-- The document of a statement that stands at the place `here`.  `nulls` says of each place whether a `return` without
a value is written with a null there. -/
def Stmt.document (nulls : Path → Bool) (here : Path) : Stmt → Json
  | .function name params body =>
    .obj [("statementKind", .str "funcDecl"), ("functionName", .str name), ("argNames", stringDocuments params),
      ("body", .arr (blockDocuments nulls here "body" 0 body))]
  | .giveBack none =>
    .obj (("statementKind", .str "return") :: if nulls here then [("returnedValue", .null)] else [])
  | .giveBack (some e) => .obj [("statementKind", .str "return"), ("returnedValue", e.document)]
  | .declare name => .obj [("statementKind", .str "varDecl"), ("variableName", .str name)]
  | .assign name e =>
    .obj [("statementKind", .str "assignment"), ("variableName", .str name), ("variableValue", e.document)]
  | .branch condition whenTrue whenFalse =>
    .obj [("statementKind", .str "if"), ("condition", condition.document),
      ("trueBody", .arr (blockDocuments nulls here "trueBody" 0 whenTrue)),
      ("falseBody", .arr (blockDocuments nulls here "falseBody" 0 whenFalse))]
  | .loop condition body =>
    .obj [("statementKind", .str "while"), ("condition", condition.document),
      ("body", .arr (blockDocuments nulls here "body" 0 body))]
  | .setField target field e =>
    .obj [("statementKind", .str "set"), ("object", target.document), ("field", .str field), ("value", e.document)]
  | .run e => .obj [("statementKind", .str "expression"), ("expression", e.document)]
  | .importFrom source names =>
    .obj [("statementKind", .str "import"), ("moduleName", .str source), ("imports", stringDocuments names)]
  | .other kind _ => .obj [("statementKind", .str kind)]

/-- The documents of the statements from number `i` on of the list under a name. -/
def blockDocuments (nulls : Path → Bool) (here : Path) (key : String) (i : Nat) : List Stmt → List Json
  | [] => []
  | st :: rest => st.document nulls (here ++ [.item key i]) :: blockDocuments nulls here key (i + 1) rest

end

def Module.document (nulls : Path → Bool) (here : Path) (m : Module) : Json :=
  .obj [("name", .str m.name), ("body", .arr (blockDocuments nulls here "body" 0 m.body)),
    ("exports", stringDocuments m.exports)]

/-- The documents of modules, the first of them in place `i` of a list. -/
def moduleDocuments (nulls : Path → Bool) (i : Nat) : List Module → List Json
  | [] => []
  | m :: rest => m.document nulls [.index i] :: moduleDocuments nulls (i + 1) rest

/-- A document may have this label in it. -/
def Label.Written : Label → Prop
  | binary op => op.name ∈ binaryOperators
  | unary op => op.name ∈ unaryOperators
  | kind _ => False

instance : DecidablePred Label.Written
  | .binary op => inferInstanceAs (Decidable (op.name ∈ binaryOperators))
  | .unary op => inferInstanceAs (Decidable (op.name ∈ unaryOperators))
  | .kind _ => inferInstanceAs (Decidable False)

def Expr.Written (e : Expr) : Prop := ∀ x ∈ e.labels, x.Written

def Stmt.Written (st : Stmt) : Prop := ∀ x ∈ st.labels, x.Written

def BodyWritten (body : List Stmt) : Prop := ∀ x ∈ labelsIn body, x.Written

/-- A module that is made of the kinds and the operators that documents know. -/
def Module.Written (m : Module) : Prop := BodyWritten m.body

/-! ## What is found under a name -/

theorem Load.ok_bind {α β : Type} (a : α) (f : α → Load β) : ((.ok a : Load α) >>= f) = f a := rfl

theorem Load.under_ok {α : Type} (step : Segment) (a : α) : Load.under step (.ok a) = .ok a := rfl

section

variable {key : String} {node : Table Json}

theorem property_of_get? {v : Json} (h : Table.get? node key = some v) : property key node = .ok v := by
  rw [property, h]

theorem contains_of_get? {v : Json} (h : Table.get? node key = some v) : Table.contains node key = true := by
  rw [Table.contains, h, Option.isSome_some]

theorem stringAt_of_get? {s : String} (h : Table.get? node key = some (.str s)) : stringAt key node = .ok s := by
  rw [stringAt, property_of_get? h, Load.ok_bind]

theorem allStrings?_map_str (names : List String) : allStrings? (names.map .str) = some names := by
  induction names with
  | nil => rfl
  | cons s rest ih => rw [List.map_cons, allStrings?, ih, Option.map_some]

theorem stringsAt_of_get? {names : List String} (h : Table.get? node key = some (stringDocuments names)) :
    stringsAt key node = .ok names := by
  rw [stringsAt, property_of_get? h, Load.ok_bind, stringDocuments]
  simp only [allStrings?_map_str]

theorem exprTagAt_of_get? (tag : ExprTag) (h : Table.get? node "expressionKind" = some (.str tag.name)) :
    exprTagAt node = .ok tag := by
  rw [exprTagAt, stringAt_of_get? h, Load.ok_bind, ExprTag.ofName?_name]

theorem stmtTagAt_of_get? (tag : StmtTag) (h : Table.get? node "statementKind" = some (.str tag.name)) :
    stmtTagAt node = .ok tag := by
  rw [stmtTagAt, stringAt_of_get? h, Load.ok_bind, StmtTag.ofName?_name]

theorem binaryOpAt_of_get? {op : BinaryOp} (h : Table.get? node "binOp" = some (.str op.name))
    (hop : op.name ∈ binaryOperators) : binaryOpAt node = .ok op := by
  rw [binaryOpAt, stringAt_of_get? h, Load.ok_bind, if_pos hop]

theorem unaryOpAt_of_get? {op : UnaryOp} (h : Table.get? node "unaryOp" = some (.str op.name))
    (hop : op.name ∈ unaryOperators) : unaryOpAt node = .ok op := by
  rw [unaryOpAt, stringAt_of_get? h, Load.ok_bind, if_pos hop]

end

/-- A reader that walks along the properties, past those of other names, gives what it gives at the first of the
name. -/
theorem walk_of_get? {α : Type} {read : Table Json → Load α} {key : String} {v : Json} {r : Load α}
    (hhit : ∀ rest, read ((key, v) :: rest) = r) (hmiss : ∀ k w rest, k ≠ key → read ((k, w) :: rest) = read rest) :
    ∀ {node : Table Json}, Table.get? node key = some v → read node = r
  | [], h => by cases h
  | (k, w) :: rest, h => by
    rw [Table.get?] at h
    by_cases hk : k = key
    · rw [if_pos hk, Option.some.injEq] at h
      rw [hk, h, hhit]
    · rw [if_neg hk] at h
      rw [hmiss k w rest hk, walk_of_get? hhit hmiss h]

section

variable {key : String} {node : Table Json} {items : List Json}

theorem exprAt_of_get? {v : Json} (h : Table.get? node key = some v) :
    exprAt key node = Load.under (.key key) (decodeExpr v) :=
  walk_of_get? (fun rest => by rw [exprAt, if_pos rfl]) (fun k w rest hk => by rw [exprAt, if_neg hk]) h

theorem exprsAt_of_get? (h : Table.get? node key = some (.arr items)) : exprsAt key node = decodeExprs key 0 items :=
  walk_of_get? (fun rest => by rw [exprsAt, if_pos rfl])
    (fun k w rest hk => by cases w <;> simp only [exprsAt, if_neg hk]) h

theorem fieldsAt_of_get? (h : Table.get? node key = some (.arr items)) : fieldsAt key node = decodeFields key 0 items :=
  walk_of_get? (fun rest => by rw [fieldsAt, if_pos rfl])
    (fun k w rest hk => by cases w <;> simp only [fieldsAt, if_neg hk]) h

theorem blockAt_of_get? (h : Table.get? node key = some (.arr items)) : blockAt key node = decodeBlock key 0 items :=
  walk_of_get? (fun rest => by rw [blockAt, if_pos rfl])
    (fun k w rest hk => by cases w <;> simp only [blockAt, if_neg hk]) h

end

/-! ## Reading back -/

theorem exprAt_document {key : String} {node : Table Json} {e : Expr} (h : Table.get? node key = some e.document)
    (he : decodeExpr e.document = .ok e) : exprAt key node = .ok e := by
  rw [exprAt_of_get? h, he, Load.under_ok]

theorem decodeField_document (name : String) {e : Expr} (he : decodeExpr e.document = .ok e) :
    decodeField (.obj [("fieldName", .str name), ("fieldValue", e.document)]) = .ok (name, e) := by
  rw [decodeField, stringAt_of_get? rfl, exprAt_document rfl he]
  rfl

mutual

theorem decodeExpr_document : ∀ e : Expr, e.Written → decodeExpr e.document = .ok e
  | .number x, _ => by
    rw [Expr.document, decodeExpr, exprTagAt_of_get? .number rfl]
    rfl
  | .boolean b, _ => by
    rw [Expr.document, decodeExpr, exprTagAt_of_get? .boolean rfl]
    rfl
  | .string s, _ => by
    rw [Expr.document, decodeExpr, exprTagAt_of_get? .string rfl, Load.ok_bind]
    dsimp only
    rw [stringAt_of_get? rfl]
    rfl
  | .null, _ => by
    rw [Expr.document, decodeExpr, exprTagAt_of_get? .null rfl]
    rfl
  | .object fields, h => by
    rw [Expr.Written, Expr.labels] at h
    rw [Expr.document, decodeExpr, exprTagAt_of_get? .object rfl, Load.ok_bind]
    dsimp only
    rw [fieldsAt_of_get? rfl, decodeFields_documents "fields" 0 fields h]
    rfl
  | .ref name, _ => by
    rw [Expr.document, decodeExpr, exprTagAt_of_get? .ref rfl, Load.ok_bind]
    dsimp only
    rw [stringAt_of_get? rfl]
    rfl
  | .get target field, h => by
    rw [Expr.Written, Expr.labels] at h
    rw [Expr.document, decodeExpr, exprTagAt_of_get? .get rfl, Load.ok_bind]
    dsimp only
    rw [exprAt_document rfl (decodeExpr_document target h), stringAt_of_get? rfl]
    rfl
  | .binary op left right, h => by
    rw [Expr.Written, Expr.labels, List.forall_mem_cons, List.forall_mem_append] at h
    obtain ⟨hop, hleft, hright⟩ := h
    rw [Expr.document, decodeExpr, exprTagAt_of_get? .binary rfl, Load.ok_bind]
    dsimp only
    rw [binaryOpAt_of_get? rfl hop, exprAt_document rfl (decodeExpr_document left hleft),
      exprAt_document rfl (decodeExpr_document right hright)]
    rfl
  | .unary op operand, h => by
    rw [Expr.Written, Expr.labels, List.forall_mem_cons] at h
    rw [Expr.document, decodeExpr, exprTagAt_of_get? .unary rfl, Load.ok_bind]
    dsimp only
    rw [unaryOpAt_of_get? rfl h.1, exprAt_document rfl (decodeExpr_document operand h.2)]
    rfl
  | .call callee args, h => by
    rw [Expr.Written, Expr.labels, List.forall_mem_append] at h
    rw [Expr.document, decodeExpr, exprTagAt_of_get? .call rfl, Load.ok_bind]
    dsimp only
    rw [exprAt_document rfl (decodeExpr_document callee h.1), exprsAt_of_get? rfl,
      decodeExprs_documents "args" 0 args h.2]
    rfl
  | .other kind _, h => absurd (h (.kind kind) List.mem_cons_self) id

theorem decodeExprs_documents (key : String) : ∀ (i : Nat) (es : List Expr), (∀ x ∈ exprLabels es, x.Written) →
    decodeExprs key i (exprDocuments es) = .ok es
  | _, [], _ => by rw [exprDocuments, decodeExprs]
  | i, e :: rest, h => by
    rw [exprLabels, List.forall_mem_append] at h
    rw [exprDocuments, decodeExprs, decodeExpr_document e h.1, Load.under_ok, Load.ok_bind,
      decodeExprs_documents key (i + 1) rest h.2]
    rfl

theorem decodeFields_documents (key : String) : ∀ (i : Nat) (fields : List (String × Expr)),
    (∀ x ∈ fieldLabels fields, x.Written) → decodeFields key i (fieldDocuments fields) = .ok fields
  | _, [], _ => by rw [fieldDocuments, decodeFields]
  | i, (name, e) :: rest, h => by
    rw [fieldLabels, List.forall_mem_append] at h
    rw [fieldDocuments, decodeFields, decodeField_document name (decodeExpr_document e h.1), Load.under_ok,
      Load.ok_bind,
      decodeFields_documents key (i + 1) rest h.2]
    rfl

end

theorem Expr.document_eq_obj (e : Expr) : ∃ node, e.document = .obj node := by
  cases e <;> exact ⟨_, by rw [Expr.document]⟩

/-- An expression is never written as a null, so a property that may be null holds it all the same. -/
theorem exprAt?_document {key : String} {node : Table Json} {e : Expr} (h : Table.get? node key = some e.document)
    (he : e.Written) : exprAt? key node = .ok (some e) := by
  obtain ⟨inner, hinner⟩ := e.document_eq_obj
  rw [exprAt?, h, hinner]
  dsimp only
  rw [exprAt_document h (decodeExpr_document e he)]
  rfl

mutual

theorem decodeStmt_document (nulls : Path → Bool) : ∀ (here : Path) (st : Stmt), st.Written →
    decodeStmt (st.document nulls here) = .ok st
  | here, .function name params body, h => by
    rw [Stmt.Written, Stmt.labels] at h
    rw [Stmt.document, decodeStmt, stmtTagAt_of_get? .function rfl, Load.ok_bind]
    dsimp only
    rw [stringAt_of_get? rfl, stringsAt_of_get? rfl, blockAt_of_get? rfl,
      decodeBlock_documents nulls here "body" 0 0 body h]
    rfl
  | here, .giveBack none, _ => by
    rw [Stmt.document]
    cases nulls here <;> rw [decodeStmt, stmtTagAt_of_get? .giveBack rfl] <;> rfl
  | here, .giveBack (some e), h => by
    rw [Stmt.Written, Stmt.labels] at h
    rw [Stmt.document, decodeStmt, stmtTagAt_of_get? .giveBack rfl, Load.ok_bind]
    dsimp only
    rw [exprAt?_document rfl h]
    rfl
  | here, .declare name, _ => by
    rw [Stmt.document, decodeStmt, stmtTagAt_of_get? .declare rfl, Load.ok_bind]
    dsimp only
    rw [stringAt_of_get? rfl]
    rfl
  | here, .assign name e, h => by
    rw [Stmt.Written, Stmt.labels] at h
    rw [Stmt.document, decodeStmt, stmtTagAt_of_get? .assign rfl, Load.ok_bind]
    dsimp only
    rw [stringAt_of_get? rfl, exprAt_document rfl (decodeExpr_document e h)]
    rfl
  | here, .branch condition whenTrue whenFalse, h => by
    rw [Stmt.Written, Stmt.labels, List.forall_mem_append, List.forall_mem_append] at h
    obtain ⟨hcondition, htrue, hfalse⟩ := h
    rw [Stmt.document, decodeStmt, stmtTagAt_of_get? .branch rfl, Load.ok_bind]
    dsimp only
    rw [if_pos (contains_of_get? rfl), blockAt_of_get? rfl,
      decodeBlock_documents nulls here "falseBody" 0 0 whenFalse hfalse,
      exprAt_document rfl (decodeExpr_document condition hcondition), blockAt_of_get? rfl,
      decodeBlock_documents nulls here "trueBody" 0 0 whenTrue htrue]
    rfl
  | here, .loop condition body, h => by
    rw [Stmt.Written, Stmt.labels, List.forall_mem_append] at h
    rw [Stmt.document, decodeStmt, stmtTagAt_of_get? .loop rfl, Load.ok_bind]
    dsimp only
    rw [exprAt_document rfl (decodeExpr_document condition h.1), blockAt_of_get? rfl,
      decodeBlock_documents nulls here "body" 0 0 body h.2]
    rfl
  | here, .setField target field e, h => by
    rw [Stmt.Written, Stmt.labels, List.forall_mem_append] at h
    rw [Stmt.document, decodeStmt, stmtTagAt_of_get? .setField rfl, Load.ok_bind]
    dsimp only
    rw [exprAt_document rfl (decodeExpr_document target h.1), stringAt_of_get? rfl,
      exprAt_document rfl (decodeExpr_document e h.2)]
    rfl
  | here, .run e, h => by
    rw [Stmt.Written, Stmt.labels] at h
    rw [Stmt.document, decodeStmt, stmtTagAt_of_get? .run rfl, Load.ok_bind]
    dsimp only
    rw [exprAt_document rfl (decodeExpr_document e h)]
    rfl
  | here, .importFrom source names, _ => by
    rw [Stmt.document, decodeStmt, stmtTagAt_of_get? .importFrom rfl, Load.ok_bind]
    dsimp only
    rw [stringAt_of_get? rfl, stringsAt_of_get? rfl]
    rfl
  | _, .other kind _, h => absurd (h (.kind kind) List.mem_cons_self) id

theorem decodeBlock_documents (nulls : Path → Bool) (here : Path) (key : String) : ∀ (i j : Nat) (body : List Stmt),
    BodyWritten body → decodeBlock key i (blockDocuments nulls here key j body) = .ok body
  | _, _, [], _ => by rw [blockDocuments, decodeBlock]
  | i, j, st :: rest, h => by
    rw [BodyWritten, labelsIn, List.forall_mem_append] at h
    rw [blockDocuments, decodeBlock, decodeStmt_document nulls _ st h.1, Load.under_ok, Load.ok_bind,
      decodeBlock_documents nulls here key (i + 1) (j + 1) rest h.2]
    rfl

end

theorem decodeModule_document (nulls : Path → Bool) (here : Path) (m : Module) (h : m.Written) :
    decodeModule (m.document nulls here) = .ok m := by
  rw [Module.document, decodeModule, stringAt_of_get? rfl, Load.ok_bind, blockAt_of_get? rfl,
    decodeBlock_documents nulls here "body" 0 0 m.body h, Load.ok_bind, if_pos (contains_of_get? rfl),
    stringsAt_of_get? rfl]
  rfl

theorem decodeModules_documents (nulls : Path → Bool) : ∀ (i j : Nat) (ms : List Module), (∀ m ∈ ms, m.Written) →
    decodeModules i (moduleDocuments nulls j ms) = .ok ms
  | _, _, [], _ => by rw [moduleDocuments, decodeModules]
  | i, j, m :: rest, h => by
    rw [List.forall_mem_cons] at h
    rw [moduleDocuments, decodeModules, decodeModule_document nulls _ m h.1, Load.under_ok, Load.ok_bind,
      decodeModules_documents nulls (i + 1) (j + 1) rest h.2]
    rfl

/-! ## What is decoded

Whatever the document, what decoding gives is made of the kinds and the operators that documents know. -/

/-- If this gives anything, it is such. -/
def Load.Gives {α : Type} (P : α → Prop) (r : Load α) : Prop := ∀ a, r = .ok a → P a

namespace Load.Gives

variable {α β : Type} {P : α → Prop} {Q : β → Prop}

theorem ok {a : α} (h : P a) : Gives P (.ok a) := by
  rintro _ ⟨⟩
  exact h

theorem fail (problem : DocumentProblem) : Gives P (Load.fail problem) := by
  rintro _ ⟨⟩

theorem any (r : Load α) : Gives (fun _ => True) r := fun _ _ => trivial

theorem bind {r : Load α} {k : α → Load β} (h : Gives P r) (hk : ∀ a, P a → Gives Q (k a)) : Gives Q (r >>= k) := by
  cases r with
  | ok a => exact hk a (h a rfl)
  | error e => rintro _ ⟨⟩

theorem under {r : Load α} (step : Segment) (h : Gives P r) : Gives P (Load.under step r) := by
  cases r with
  | ok a => exact h
  | error e => cases e <;> rintro _ ⟨⟩

theorem ite {c : Prop} [Decidable c] {r r' : Load α} (h : c → Gives P r) (h' : ¬ c → Gives P r') :
    Gives P (if c then r else r') := by
  split
  · exact h ‹_›
  · exact h' ‹_›

end Load.Gives

theorem written_of_binaryOpAt (node : Table Json) : (binaryOpAt node).Gives fun op => op.name ∈ binaryOperators :=
  .bind (.any _) fun _ _ => .ite (fun h => .ok h) fun _ => .fail _

theorem written_of_unaryOpAt (node : Table Json) : (unaryOpAt node).Gives fun op => op.name ∈ unaryOperators :=
  .bind (.any _) fun _ _ => .ite (fun h => .ok h) fun _ => .fail _

mutual

theorem written_of_decodeExpr : ∀ v, (decodeExpr v).Gives Expr.Written
  | .obj node => by
    rw [decodeExpr]
    refine .bind (.any _) fun tag _ => ?_
    have hnone : ∀ {e : Expr}, e.labels = [] → e.Written := fun he x hx => by rw [he] at hx; cases hx
    cases tag with
    | binary =>
      refine .bind (written_of_binaryOpAt node) fun op hop =>
        .bind (written_of_exprAt "leftOperand" node) fun left hl =>
        .bind (written_of_exprAt "rightOperand" node) fun right hr => .ok ?_
      rw [Expr.Written, Expr.labels, List.forall_mem_cons, List.forall_mem_append]
      exact ⟨hop, hl, hr⟩
    | unary =>
      refine .bind (written_of_unaryOpAt node) fun op hop => .bind (written_of_exprAt "operand" node) fun e he => .ok ?_
      rw [Expr.Written, Expr.labels, List.forall_mem_cons]
      exact ⟨hop, he⟩
    | number | boolean | string | ref => exact .bind (.any _) fun _ _ => .ok (hnone rfl)
    | null => exact .ok (hnone rfl)
    | object =>
      exact .bind (written_of_fieldsAt "fields" node) fun fields hf => .ok (by rwa [Expr.Written, Expr.labels])
    | call =>
      refine .bind (written_of_exprAt "callee" node) fun callee hc => .bind (written_of_exprsAt "args" node)
        fun args ha => .ok ?_
      rw [Expr.Written, Expr.labels, List.forall_mem_append]
      exact ⟨hc, ha⟩
    | get =>
      exact .bind (written_of_exprAt "object" node) fun target ht => .bind (.any _) fun _ _ =>
        .ok (by rwa [Expr.Written, Expr.labels])
  | .null | .bool _ | .int _ | .float _ | .str _ | .arr _ => .fail _

theorem written_of_exprAt (key : String) : ∀ node : List (String × Json), (exprAt key node).Gives Expr.Written
  | [] => .fail _
  | (k, v) :: rest => by
    rw [exprAt]
    exact .ite (fun _ => .under _ (written_of_decodeExpr v)) fun _ => written_of_exprAt key rest

theorem written_of_exprsAt (key : String) : ∀ node : List (String × Json),
    (exprsAt key node).Gives fun es => ∀ x ∈ exprLabels es, x.Written
  | [] => .fail _
  | (k, .arr items) :: rest => by
    rw [exprsAt]
    exact .ite (fun _ => written_of_decodeExprs key 0 items) fun _ => written_of_exprsAt key rest
  | (k, .null) :: rest | (k, .bool _) :: rest | (k, .int _) :: rest | (k, .float _) :: rest | (k, .str _) :: rest
  | (k, .obj _) :: rest => by
    simp only [exprsAt]
    exact .ite (fun _ => .fail _) fun _ => written_of_exprsAt key rest

theorem written_of_decodeExprs (key : String) : ∀ (i : Nat) (items : List Json),
    (decodeExprs key i items).Gives fun es => ∀ x ∈ exprLabels es, x.Written
  | _, [] => .ok (by simp [exprLabels])
  | i, v :: rest => by
    rw [decodeExprs]
    refine .bind (.under _ (written_of_decodeExpr v)) fun e he => .bind (written_of_decodeExprs key (i + 1) rest)
      fun es hes => .ok ?_
    rw [exprLabels, List.forall_mem_append]
    exact ⟨he, hes⟩

theorem written_of_fieldsAt (key : String) : ∀ node : List (String × Json),
    (fieldsAt key node).Gives fun fields => ∀ x ∈ fieldLabels fields, x.Written
  | [] => .fail _
  | (k, .arr items) :: rest => by
    rw [fieldsAt]
    exact .ite (fun _ => written_of_decodeFields key 0 items) fun _ => written_of_fieldsAt key rest
  | (k, .null) :: rest | (k, .bool _) :: rest | (k, .int _) :: rest | (k, .float _) :: rest | (k, .str _) :: rest
  | (k, .obj _) :: rest => by
    simp only [fieldsAt]
    exact .ite (fun _ => .fail _) fun _ => written_of_fieldsAt key rest

theorem written_of_decodeFields (key : String) : ∀ (i : Nat) (items : List Json),
    (decodeFields key i items).Gives fun fields => ∀ x ∈ fieldLabels fields, x.Written
  | _, [] => .ok (by simp [fieldLabels])
  | i, v :: rest => by
    rw [decodeFields]
    refine .bind (.under _ (written_of_decodeField v)) fun f hf => .bind (written_of_decodeFields key (i + 1) rest)
      fun fields hfields => .ok ?_
    rw [fieldLabels, List.forall_mem_append]
    exact ⟨hf, hfields⟩

theorem written_of_decodeField : ∀ v, (decodeField v).Gives fun f => f.2.Written
  | .obj node => by
    rw [decodeField]
    exact .bind (.any _) fun name _ => .bind (written_of_exprAt "fieldValue" node) fun e he => .ok he
  | .null | .bool _ | .int _ | .float _ | .str _ | .arr _ => .fail _

end

theorem written_of_exprAt? (key : String) (node : Table Json) :
    (exprAt? key node).Gives fun value => ∀ e ∈ value, e.Written := by
  unfold exprAt?
  split
  · exact .ok (by simp)
  · exact .ok (by simp)
  · rw [map_eq_pure_bind]
    exact .bind (written_of_exprAt key node) fun e he => .ok (by simpa using he)

mutual

theorem written_of_decodeStmt : ∀ v, (decodeStmt v).Gives Stmt.Written
  | .obj node => by
    rw [decodeStmt]
    refine .bind (.any _) fun tag _ => ?_
    have hnone : ∀ {st : Stmt}, st.labels = [] → st.Written := fun hst x hx => by rw [hst] at hx; cases hx
    cases tag with
    | function =>
      exact .bind (.any _) fun _ _ => .bind (.any _) fun _ _ => .bind (written_of_blockAt "body" node) fun body hb =>
        .ok (by rwa [Stmt.Written, Stmt.labels])
    | giveBack =>
      refine .bind (written_of_exprAt? "returnedValue" node) fun value hv => .ok ?_
      cases value with
      | none => exact hnone rfl
      | some e =>
        rw [Stmt.Written, Stmt.labels]
        exact hv e rfl
    | declare => exact .bind (.any _) fun _ _ => .ok (hnone rfl)
    | assign =>
      exact .bind (.any _) fun _ _ => .bind (written_of_exprAt "variableValue" node) fun e he =>
        .ok (by rwa [Stmt.Written, Stmt.labels])
    | branch =>
      have hrest : ∀ whenFalse, BodyWritten whenFalse → Load.Gives Stmt.Written (do
          let condition ← exprAt "condition" node
          let whenTrue ← blockAt "trueBody" node
          return .branch condition whenTrue whenFalse) := by
        intro whenFalse hf
        refine .bind (written_of_exprAt "condition" node) fun condition hc =>
          .bind (written_of_blockAt "trueBody" node) fun whenTrue ht => .ok ?_
        rw [Stmt.Written, Stmt.labels, List.forall_mem_append, List.forall_mem_append]
        exact ⟨hc, ht, hf⟩
      exact .ite (fun _ => .bind (written_of_blockAt "falseBody" node) hrest) fun _ =>
        hrest [] (by simp [BodyWritten, labelsIn])
    | loop =>
      refine .bind (written_of_exprAt "condition" node) fun condition hc => .bind (written_of_blockAt "body" node)
        fun body hb => .ok ?_
      rw [Stmt.Written, Stmt.labels, List.forall_mem_append]
      exact ⟨hc, hb⟩
    | setField =>
      refine .bind (written_of_exprAt "object" node) fun target ht => .bind (.any _) fun _ _ =>
        .bind (written_of_exprAt "value" node) fun e he => .ok ?_
      rw [Stmt.Written, Stmt.labels, List.forall_mem_append]
      exact ⟨ht, he⟩
    | run => exact .bind (written_of_exprAt "expression" node) fun e he => .ok (by rwa [Stmt.Written, Stmt.labels])
    | importFrom => exact .bind (.any _) fun _ _ => .bind (.any _) fun _ _ => .ok (hnone rfl)
    | classDeclaration => exact .fail _
  | .null | .bool _ | .int _ | .float _ | .str _ | .arr _ => .fail _

theorem written_of_blockAt (key : String) : ∀ node : List (String × Json), (blockAt key node).Gives BodyWritten
  | [] => .fail _
  | (k, .arr items) :: rest => by
    rw [blockAt]
    exact .ite (fun _ => written_of_decodeBlock key 0 items) fun _ => written_of_blockAt key rest
  | (k, .null) :: rest | (k, .bool _) :: rest | (k, .int _) :: rest | (k, .float _) :: rest | (k, .str _) :: rest
  | (k, .obj _) :: rest => by
    simp only [blockAt]
    exact .ite (fun _ => .fail _) fun _ => written_of_blockAt key rest

theorem written_of_decodeBlock (key : String) : ∀ (i : Nat) (items : List Json),
    (decodeBlock key i items).Gives BodyWritten
  | _, [] => .ok (by simp [BodyWritten, labelsIn])
  | i, v :: rest => by
    rw [decodeBlock]
    refine .bind (.under _ (written_of_decodeStmt v)) fun st hst => .bind (written_of_decodeBlock key (i + 1) rest)
      fun body hbody => .ok ?_
    rw [BodyWritten, labelsIn, List.forall_mem_append]
    exact ⟨hst, hbody⟩

end

theorem written_of_decodeModule (v : Json) : (decodeModule v).Gives Module.Written := by
  cases v with
  | obj node =>
    exact .bind (.any _) fun _ _ => .bind (written_of_blockAt "body" node) fun body hbody =>
      .ite (fun _ => .bind (.any _) fun _ _ => .ok hbody) fun _ => .ok hbody
  | null | bool _ | int _ | float _ | str _ | arr _ => exact .fail _

theorem written_of_decodeModules : ∀ (i : Nat) (items : List Json), (decodeModules i items).Gives (∀ m ∈ ·, m.Written)
  | _, [] => .ok (List.forall_mem_nil _)
  | i, v :: rest => by
    rw [decodeModules]
    exact .bind (.under _ (written_of_decodeModule v)) fun m hm => .bind (written_of_decodeModules (i + 1) rest)
      fun ms hms => .ok (List.forall_mem_cons.2 ⟨hm, hms⟩)

theorem written_of_loadModules (v : Json) : (loadModules v).Gives (∀ m ∈ ·, m.Written) := by
  cases v with
  | arr items => exact written_of_decodeModules 0 items
  | null | bool _ | int _ | float _ | str _ | obj _ =>
    exact .bind (written_of_decodeModule _) fun m hm => .ok (List.forall_mem_singleton.2 hm)

/-- **Decoding undoes writing.**  Whatever the module, and in whichever of the two ways each `return` without a value is
written, its document is decoded to exactly that module, unless a kind or an operator stands in it that documents do not
know; and the list of the documents of several such modules is loaded as exactly these modules, in order. -/
theorem decode_document (nulls : Path → Bool) (m : Module) (ms : List Module) :
    (decodeModule (m.document nulls []) = .ok m ↔ m.Written) ∧
      (loadModules (.arr (moduleDocuments nulls 0 ms)) = .ok ms ↔ ∀ m ∈ ms, m.Written) :=
  ⟨⟨written_of_decodeModule _ m, decodeModule_document nulls [] m⟩,
    ⟨written_of_loadModules _ ms, decodeModules_documents nulls 0 0 ms⟩⟩

end Thicket
