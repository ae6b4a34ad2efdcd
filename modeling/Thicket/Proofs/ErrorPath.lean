import Thicket.Proofs.Grammar
import Thicket.Proofs.PathStack
import Thicket.Proofs.PathText
/-!
# The path of an error

The path in an error leads from the root of the document to a node of it (`Leads`), and that node, read in the role it
has there, is at fault itself (`Faulty`): it is no object, lacks a property, or has one that does not fit.  What is
wrong with a node further down is never told of the nodes around it.

Every look of the walk is at a node to which its path leads (`located_of_mem_looksAs`), and the error of a document is
that of one of these looks.  An error is told with the text of its path, and of all the paths that lead anywhere in the
document it is the only one with this text (`LeadsIn.eq_of_text`).
-/
namespace Thicket

/-! ## Following a path -/

def Json.item? (i : Nat) : Json → Option Json
  | .arr items => items[i]?
  | _ => none

def Json.property? (name : String) : Json → Option Json
  | .obj node => Table.get? node name
  | _ => none

/-- The document to which one step leads. -/
def Segment.follow? : Segment → Json → Option Json
  | index i, v => v.item? i
  | key name, v => v.property? name
  | item name i, v => (v.property? name).bind (Json.item? i)

def Path.follow? : Path → Json → Option Json
  | [], v => some v
  | step :: path, v => (step.follow? v).bind (Path.follow? path)

/-- In a document that is read in the first role, the path leads to a node that is read in the second. -/
inductive Leads : Role → Json → Path → Role → Json → Prop
  | here {role : Role} {v : Json} : Leads role v [] role v
  | key {role inner target : Role} {node : Table Json} {p : Property} {v n : Json} {path : Path} :
      p ∈ role.properties node → p.shape = .node inner → Table.get? node p.key = some v → p.excuses (some v) = false →
      Leads inner v path target n → Leads role (.obj node) (.key p.key :: path) target n
  | item {role inner target : Role} {node : Table Json} {p : Property} {items : List Json} {i : Nat} {v n : Json}
      {path : Path} :
      p ∈ role.properties node → p.shape = .nodes inner → Table.get? node p.key = some (.arr items) →
      items[i]? = some v → Leads inner v path target n → Leads role (.obj node) (.item p.key i :: path) target n

/-- The same in a document of one module, or of a list of them. -/
inductive LeadsIn : Json → Path → Role → Json → Prop
  | single {d n : Json} {path : Path} {role : Role} : (∀ items, d ≠ .arr items) → Leads .module d path role n →
      LeadsIn d path role n
  | entry {items : List Json} {i : Nat} {v n : Json} {path : Path} {role : Role} : items[i]? = some v →
      Leads .module v path role n → LeadsIn (.arr items) (.index i :: path) role n

theorem Leads.follow? {role target : Role} {v n : Json} {path : Path} (h : Leads role v path target n) :
    path.follow? v = some n := by
  induction h with
  | here => rfl
  | key _ _ hget _ _ ih => rw [Path.follow?, Segment.follow?, Json.property?, hget, Option.bind_some, ih]
  | item _ _ hget hitem _ ih =>
    rw [Path.follow?, Segment.follow?, Json.property?, hget, Option.bind_some, Json.item?, hitem, Option.bind_some, ih]

theorem LeadsIn.follow? {d n : Json} {path : Path} {role : Role} (h : LeadsIn d path role n) :
    path.follow? d = some n := by
  cases h with
  | single _ h => exact h.follow?
  | entry hitem h => rw [Path.follow?, Segment.follow?, Json.item?, hitem, Option.bind_some, h.follow?]

/-! ## The text of a path in a document -/

theorem plain_key {role : Role} {node : Table Json} {p : Property} (h : p ∈ role.properties node) : Plain p.key := by
  have hexpr : ∀ tag : ExprTag, ∀ q ∈ tag.properties, Plain q.key := by
    intro tag
    cases tag <;> decide
  have hstmt : ∀ tag : StmtTag, ∀ q ∈ tag.properties, Plain q.key := by
    intro tag
    cases tag <;> decide
  cases role with
  | module => exact (by decide : ∀ q ∈ Role.module.properties [], Plain q.key) p h
  | objectField => exact (by decide : ∀ q ∈ Role.objectField.properties [], Plain q.key) p h
  | statement =>
    rcases List.mem_cons.1 h with rfl | h
    · decide
    · cases htag : stmtTag? node with
      | none => simp [htag] at h
      | some tag => exact hstmt tag p (by simpa [htag] using h)
  | expression =>
    rcases List.mem_cons.1 h with rfl | h
    · decide
    · cases htag : exprTag? node with
      | none => simp [htag] at h
      | some tag => exact hexpr tag p (by simpa [htag] using h)

theorem Leads.named {role target : Role} {v n : Json} {path : Path} (h : Leads role v path target n) :
    ∀ step ∈ path, step.Named := by
  induction h with
  | here => exact List.forall_mem_nil _
  | key hp _ _ _ _ ih => exact List.forall_mem_cons.2 ⟨plain_key hp, ih⟩
  | item hp _ _ _ _ ih => exact List.forall_mem_cons.2 ⟨plain_key hp, ih⟩

/-- Of the paths in one document, no two have the same text. -/
theorem LeadsIn.eq_of_text {d n n' : Json} {path path' : Path} {role role' : Role} (h : LeadsIn d path role n)
    (h' : LeadsIn d path' role' n') (htext : path.text = path'.text) : path = path' := by
  cases h with
  | single hd h =>
    cases h' with
    | single _ h' => exact Path.eq_of_text h.named h'.named htext
    | entry => exact absurd rfl (hd _)
  | entry _ h =>
    cases h' with
    | single hd => exact absurd rfl (hd _)
    | entry _ h' =>
      obtain ⟨rfl, rfl⟩ := Path.eq_of_text_index h.named h'.named htext
      rfl

/-! ## Nodes at fault -/

/-- The value of a property does not have the shape it is to have, and the problem says so. -/
inductive Misfit (key : String) : Shape → Json → DocumentProblem → Prop
  | notString {shape : Shape} {v : Json} : shape ∈ [.text, .binaryOp, .unaryOp, .stmtTag, .exprTag] →
      (∀ s, v ≠ .str s) → Misfit key shape v (.notString key v)
  | notStringList {v : Json} : (∀ names : List String, v ≠ .arr (names.map .str)) →
      Misfit key .texts v (.notStringList key v)
  | notNumber {v : Json} : (∀ n, v ≠ .int n) → (∀ x, v ≠ .float x) → Misfit key .number v (.notNumber v)
  | notBoolean {v : Json} : (∀ b, v ≠ .bool b) → Misfit key .boolean v (.notBoolean v)
  | notList {role : Role} {v : Json} : (∀ items, v ≠ .arr items) → Misfit key (.nodes role) v (.notList key v)
  | unknownBinaryOp {name : String} : name ∉ binaryOperators →
      Misfit key .binaryOp (.str name) (.unknownBinaryOp name)
  | unknownUnaryOp {name : String} : name ∉ unaryOperators →
      Misfit key .unaryOp (.str name) (.unknownUnaryOp name)
  | unknownStatement {name : String} : (∀ tag : StmtTag, tag.name ≠ name) →
      Misfit key .stmtTag (.str name) (.unknownStatement name)
  | unknownExpression {name : String} : (∀ tag : ExprTag, tag.name ≠ name) →
      Misfit key .exprTag (.str name) (.unknownExpression name)
  | classDeclaration : Misfit key .stmtTag (.str StmtTag.classDeclaration.name) .classDeclaration

/-- A node is at fault itself, as the problem says: it is no object, or it lacks a property that it has to have, or it
has one that does not fit. -/
inductive Faulty (role : Role) : Json → DocumentProblem → Prop
  | notObject {v : Json} : (∀ node, v ≠ .obj node) → Faulty role v (.notObject role v)
  | missing {node : Table Json} {p : Property} : p ∈ role.properties node → p.need = .always →
      Table.get? node p.key = none → Faulty role (.obj node) (.missing p.key)
  | misfit {node : Table Json} {p : Property} {v : Json} {problem : DocumentProblem} : p ∈ role.properties node →
      Table.get? node p.key = some v → p.excuses (some v) = false → Misfit p.key p.shape v problem →
      Faulty role (.obj node) problem

theorem name_ne_of_find?_name {α : Type} {all : List α} {name : α → String} {s : String} (hall : ∀ a, a ∈ all)
    (h : all.find? (fun k => name k = s) = none) (a : α) : name a ≠ s := by
  simpa using List.find?_eq_none.1 h a (hall a)

/-- A text that does not fit is no name of what it is to name, or it is that of a class declaration. -/
theorem misfit_str {key name : String} {shape : Shape} {problem : DocumentProblem}
    (h : shape.problem? key (.str name) = some problem) : Misfit key shape (.str name) problem := by
  cases shape with
  | text | node => cases h
  | texts =>
    cases h
    exact .notStringList (by rintro _ ⟨⟩)
  | number =>
    cases h
    exact .notNumber (by rintro _ ⟨⟩) (by rintro _ ⟨⟩)
  | boolean =>
    cases h
    exact .notBoolean (by rintro _ ⟨⟩)
  | nodes role =>
    cases h
    exact .notList (by rintro _ ⟨⟩)
  | binaryOp =>
    by_cases hname : name ∈ binaryOperators
    · simp [Shape.problem?, hname] at h
    · rw [Shape.problem?, if_neg hname] at h
      cases h
      exact .unknownBinaryOp hname
  | unaryOp =>
    by_cases hname : name ∈ unaryOperators
    · simp [Shape.problem?, hname] at h
    · rw [Shape.problem?, if_neg hname] at h
      cases h
      exact .unknownUnaryOp hname
  | exprTag =>
    cases htag : ExprTag.ofName? name with
    | some tag => simp [Shape.problem?, htag] at h
    | none =>
      simp only [Shape.problem?, htag] at h
      cases h
      exact .unknownExpression (name_ne_of_find?_name (by intro tag; cases tag <;> decide) htag)
  | stmtTag =>
    cases htag : StmtTag.ofName? name with
    | none =>
      simp only [Shape.problem?, htag] at h
      cases h
      exact .unknownStatement (name_ne_of_find?_name (by intro tag; cases tag <;> decide) htag)
    | some tag =>
      have hname : tag.name = name := eq_of_find?_name htag
      subst hname
      cases tag with
      | classDeclaration =>
        simp only [Shape.problem?, htag] at h
        cases h
        exact .classDeclaration
      | _ => simp [Shape.problem?, htag] at h

theorem misfit_of_problem? {key : String} {shape : Shape} {v : Json} {problem : DocumentProblem}
    (h : shape.problem? key v = some problem) : Misfit key shape v problem := by
  by_cases hstr : ∃ name, v = .str name
  · obtain ⟨name, rfl⟩ := hstr
    exact misfit_str h
  cases shape with
  | text | binaryOp | unaryOp | stmtTag | exprTag =>
    have hproblem : some (DocumentProblem.notString key v) = some problem := by
      cases v <;> first | exact h | exact absurd ⟨_, rfl⟩ hstr
    cases hproblem
    exact .notString (by simp) (not_exists.1 hstr)
  | texts =>
    cases v with
    | arr items =>
      rw [Shape.problem?] at h
      split at h
      · cases h
      · rename_i hnone
        cases h
        refine .notStringList ?_
        rintro names ⟨⟩
        simp [allStrings?_map_str] at hnone
    | _ =>
      cases h
      exact .notStringList (by rintro _ ⟨⟩)
  | number =>
    cases v with
    | int | float => cases h
    | _ =>
      cases h
      exact .notNumber (by rintro _ ⟨⟩) (by rintro _ ⟨⟩)
  | boolean =>
    cases v with
    | bool => cases h
    | _ =>
      cases h
      exact .notBoolean (by rintro _ ⟨⟩)
  | node role => cases v <;> cases h
  | nodes role =>
    cases v with
    | arr items => cases h
    | _ =>
      cases h
      exact .notList (by rintro _ ⟨⟩)

/-! ## Every look is at the node to which its path leads -/

/-- What is asked is about this node, read in this role. -/
inductive Asks (role : Role) : Json → Question → Prop
  | node {v : Json} : Asks role v (.node role v)
  | property {node : Table Json} {p : Property} : p ∈ role.properties node →
      Asks role (.obj node) (.property p (Table.get? node p.key))

theorem Asks.faulty {role : Role} {n : Json} {q : Question} {problem : DocumentProblem} (h : Asks role n q)
    (hq : q.problem? = some problem) : Faulty role n problem := by
  cases h with
  | node =>
    cases n with
    | obj node => cases hq
    | _ =>
      cases hq
      exact .notObject (by rintro _ ⟨⟩)
  | @property node p hp =>
    cases hget : Table.get? node p.key with
    | none =>
      rw [hget] at hq
      cases hneed : p.need with
      | always =>
        simp only [Question.problem?, Property.excuses, hneed] at hq
        cases hq
        exact .missing hp hneed hget
      | optional | nullable => simp [Question.problem?, Property.excuses, hneed] at hq
    | some v =>
      rw [hget] at hq
      cases hexcuses : p.excuses (some v) with
      | true => simp [Question.problem?, hexcuses] at hq
      | false =>
        simp only [Question.problem?, hexcuses] at hq
        exact .misfit hp hget hexcuses (misfit_of_problem? hq)

/-- The look is at the node to which its path leads. -/
def Located (role : Role) (v : Json) (x : Look) : Prop :=
  ∃ target n, Leads role v x.path target n ∧ Asks target n x.question

namespace Located

variable {role inner : Role} {node : Table Json} {p : Property} {x : Look}

theorem key {v : Json} (hp : p ∈ role.properties node) (hshape : p.shape = .node inner)
    (hget : Table.get? node p.key = some v) (hexcuses : p.excuses (some v) = false) (h : Located inner v x) :
    Located role (.obj node) (x.under (.key p.key)) := by
  obtain ⟨target, n, hleads, hasks⟩ := h
  exact ⟨target, n, .key hp hshape hget hexcuses hleads, hasks⟩

theorem item {items : List Json} {i : Nat} {v : Json} (hp : p ∈ role.properties node) (hshape : p.shape = .nodes inner)
    (hget : Table.get? node p.key = some (.arr items)) (hitem : items[i]? = some v) (h : Located inner v x) :
    Located role (.obj node) (x.under (.item p.key i)) := by
  obtain ⟨target, n, hleads, hasks⟩ := h
  exact ⟨target, n, .item hp hshape hget hitem hleads, hasks⟩

theorem property {found : Option Json} (hp : p ∈ role.properties node) (hget : Table.get? node p.key = found) :
    Located role (.obj node) ⟨[], .property p found⟩ :=
  ⟨role, .obj node, .here, hget ▸ .property hp⟩

end Located

mutual

theorem located_of_mem_looksAs : ∀ (v : Json) {role : Role} {x : Look}, x ∈ looksAs role v → Located role v x
  | .obj node, role, x, h => by
    rw [looksAs, List.mem_cons, List.mem_flatMap] at h
    rcases h with rfl | ⟨p, hp, h⟩
    · exact ⟨role, .obj node, .here, .node⟩
    · exact located_of_mem_looksAt hp node rfl h
  | .null, role, x, h | .bool _, role, x, h | .int _, role, x, h | .float _, role, x, h | .str _, role, x, h
  | .arr _, role, x, h => by
    obtain rfl := List.mem_singleton.1 h
    exact ⟨role, _, .here, .node⟩

/-- The entries are the ones of the node from some point on, before which the property is not. -/
theorem located_of_mem_looksAt {role : Role} {node : Table Json} {p : Property} (hp : p ∈ role.properties node) :
    ∀ (entries : List (String × Json)) {x : Look}, Table.get? node p.key = Table.get? entries p.key →
      x ∈ looksAt p entries → Located role (.obj node) x
  | [], x, hget, h => by
    obtain rfl := List.mem_singleton.1 h
    exact .property hp hget
  | (k, v) :: rest, x, hget, h => by
    rw [Table.get?] at hget
    rw [looksAt] at h
    split at h
    · rename_i hk
      rw [if_pos hk] at hget
      rcases List.mem_cons.1 h with rfl | h
      · exact .property hp hget
      · split at h
        · cases h
        · rename_i hexcuses
          rw [Bool.not_eq_true] at hexcuses
          split at h
          · rename_i inner hshape
            obtain ⟨y, hy, rfl⟩ := List.mem_map.1 h
            exact .key hp hshape hget hexcuses (located_of_mem_looksAs v hy)
          · rename_i inner hshape
            obtain ⟨items, rfl, i, w, y, hitem, hy, rfl⟩ := located_of_mem_looksInList v h
            exact .item hp hshape hget hitem hy
          · cases h
    · rename_i hk
      rw [if_neg hk] at hget
      exact located_of_mem_looksAt hp rest hget h

theorem located_of_mem_looksInList {role : Role} {key : String} : ∀ (v : Json) {x : Look}, x ∈ looksInList role key v →
    ∃ items, v = .arr items ∧ ∃ i w y, items[i]? = some w ∧ Located role w y ∧ x = y.under (.item key i)
  | .arr items, x, h => by
    obtain ⟨i, w, y, hitem, hy, rfl⟩ := located_of_mem_looksInItems 0 items h
    exact ⟨items, rfl, i, w, y, hitem, hy, by rw [Nat.zero_add]⟩

theorem located_of_mem_looksInItems {role : Role} {key : String} : ∀ (i : Nat) (items : List Json) {x : Look},
    x ∈ looksInItems role key i items →
    ∃ j w y, items[j]? = some w ∧ Located role w y ∧ x = y.under (.item key (i + j))
  | i, v :: rest, x, h => by
    rcases List.mem_append.1 h with h | h
    · obtain ⟨y, hy, rfl⟩ := List.mem_map.1 h
      exact ⟨0, v, y, rfl, located_of_mem_looksAs v hy, rfl⟩
    · obtain ⟨j, w, y, hitem, hy, rfl⟩ := located_of_mem_looksInItems (i + 1) rest h
      exact ⟨j + 1, w, y, hitem, hy, by rw [Nat.add_assoc, Nat.add_comm 1 j]⟩

end

theorem exists_located_of_mem_looksInDocuments : ∀ (i : Nat) (items : List Json) {x : Look},
    x ∈ looksInDocuments i items →
    ∃ j w y, items[j]? = some w ∧ Located .module w y ∧ x = y.under (.index (i + j))
  | i, v :: rest, x, h => by
    rcases List.mem_append.1 h with h | h
    · obtain ⟨y, hy, rfl⟩ := List.mem_map.1 h
      exact ⟨0, v, y, rfl, located_of_mem_looksAs v hy, rfl⟩
    · obtain ⟨j, w, y, hitem, hy, rfl⟩ := exists_located_of_mem_looksInDocuments (i + 1) rest h
      exact ⟨j + 1, w, y, hitem, hy, by rw [Nat.add_assoc, Nat.add_comm 1 j]⟩

theorem exists_leadsIn_of_mem_documentLooks (d : Json) {x : Look} (h : x ∈ documentLooks d) :
    ∃ role n, LeadsIn d x.path role n ∧ Asks role n x.question := by
  cases d with
  | arr items =>
    obtain ⟨i, v, y, hitem, ⟨role, n, hleads, hasks⟩, rfl⟩ := exists_located_of_mem_looksInDocuments 0 items h
    rw [Nat.zero_add]
    exact ⟨role, n, .entry hitem hleads, hasks⟩
  | _ =>
    obtain ⟨role, n, hleads, hasks⟩ := located_of_mem_looksAs _ h
    exact ⟨role, n, .single (by rintro _ ⟨⟩) hleads, hasks⟩

/-! ## Errors -/

theorem exists_look_of_malformed {looks : List Look} {e : DocumentError} (h : firstError looks = some (.malformed e)) :
    ∃ x ∈ looks, x.path = e.path ∧ x.question.problem? = some e.problem := by
  obtain ⟨before, x, after, rfl, hx, -⟩ := firstError_eq_some_iff.1 h
  exact ⟨x, List.mem_append_cons_self, Look.error?_eq_malformed_iff.1 hx⟩

theorem decodeModule_faulty {d : Json} {e : DocumentError} (h : decodeModule d = .error (.malformed e)) :
    ∃ role n, Leads .module d e.path role n ∧ Faulty role n e.problem := by
  rw [← Load.error?_eq_some_iff, decodeModule_error?] at h
  obtain ⟨x, hx, hpath, hproblem⟩ := exists_look_of_malformed h
  obtain ⟨role, n, hleads, hasks⟩ := located_of_mem_looksAs d hx
  exact ⟨role, n, hpath ▸ hleads, hasks.faulty hproblem⟩

theorem loadModules_faulty {d : Json} {e : DocumentError} (h : loadModules d = .error (.malformed e)) :
    ∃ role n, LeadsIn d e.path role n ∧ Faulty role n e.problem := by
  rw [← Load.error?_eq_some_iff, loadModules_error?] at h
  obtain ⟨x, hx, hpath, hproblem⟩ := exists_look_of_malformed h
  obtain ⟨role, n, hleads, hasks⟩ := exists_leadsIn_of_mem_documentLooks d hx
  exact ⟨role, n, hpath ▸ hleads, hasks.faulty hproblem⟩

/-- **An error leads to what is at fault.**  The path in the error of a document can be followed from its root to a node
that, read in the role it has there, is itself at fault as the error says, and no other path that leads to a node has
the same text; for one module as for a list of them.  A decoder that keeps the path on a stack tells of the same errors,
and whatever node it decodes, it leaves the stack as it found it. -/
theorem error_path_leads_to_fault (d : Json) :
    (∀ e, decodeModule d = .error (.malformed e) →
      (∃ role n, e.path.follow? d = some n ∧ Leads .module d e.path role n ∧ Faulty role n e.problem) ∧
      ∀ path role n, Leads .module d path role n → path.text = e.path.text → path = e.path) ∧
    (∀ e, loadModules d = .error (.malformed e) →
      (∃ role n, e.path.follow? d = some n ∧ LeadsIn d e.path role n ∧ Faulty role n e.problem) ∧
      ∀ path role n, LeadsIn d path role n → path.text = e.path.text → path = e.path) ∧
    (Stacked.module d).Balanced (decodeModule d) ∧ (Stacked.document d).Balanced (loadModules d) ∧
    (Stacked.stmt d).Balanced (decodeStmt d) ∧ (Stacked.expr d).Balanced (decodeExpr d) ∧
    (Stacked.field d).Balanced (decodeField d) := by
  refine ⟨fun e h => ?_, fun e h => ?_, Stacked.balanced_of_eq (Stacked.module_eq d),
    Stacked.balanced_of_eq (Stacked.document_eq d), Stacked.balanced_of_eq (Stacked.stmt_eq d),
    Stacked.balanced_of_eq (Stacked.expr_eq d), Stacked.balanced_of_eq (Stacked.field_eq d)⟩
  · obtain ⟨role, n, hleads, hfaulty⟩ := decodeModule_faulty h
    exact ⟨⟨role, n, hleads.follow?, hleads, hfaulty⟩, fun path _ _ hpath => Path.eq_of_text hpath.named hleads.named⟩
  · obtain ⟨role, n, hleads, hfaulty⟩ := loadModules_faulty h
    exact ⟨⟨role, n, hleads.follow?, hleads, hfaulty⟩, fun path _ _ hpath => hpath.eq_of_text hleads⟩

/-- A module in order, and one with a class in a function, after a statement in order. -/
def torn : Json :=
  .arr [.obj [("name", .str "Lib"), ("body", .arr [])],
    .obj [("name", .str "Main"), ("body", .arr [.obj [("statementKind", .str "return")],
      .obj [("statementKind", .str "funcDecl"), ("functionName", .str "f"), ("argNames", .arr []),
        ("body", .arr [.obj [("statementKind", .str "classDecl")]])]])]]

theorem torn_error :
    loadModules torn =
      .error (.malformed ⟨[.index 1, .item "body" 1, .item "body" 0], .classDeclaration⟩) ∧
    ∃ role n, Path.follow? [.index 1, .item "body" 1, .item "body" 0] torn = some n ∧
      LeadsIn torn [.index 1, .item "body" 1, .item "body" 0] role n ∧ Faulty role n .classDeclaration :=
  ⟨rfl, ((error_path_leads_to_fault torn).2.1 _ rfl).1⟩

end Thicket
