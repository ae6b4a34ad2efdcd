import Thicket.Proofs.Walk
/-!
# The grammar of module documents

`WellFormed` is the grammar that the tables of properties make.  A document is well-formed exactly if no look of the
walk through it finds a problem (`wellFormed_node_iff`), so what is decoded is what is well-formed and holds no number
beyond the doubles; and of all that is wrong with another document the first thing on the way decides the error.
-/
namespace Thicket

/-! ## The grammar -/

/-- The documents of a shape.  A node is an object whose properties are as the tables say; what else is in it does not
matter. -/
inductive WellFormed : Shape → Json → Prop
  | text (s : String) : WellFormed .text (.str s)
  | texts (names : List String) : WellFormed .texts (.arr (names.map .str))
  | integer (n : Int) : WellFormed .number (.int n)
  | double (x : Float) : WellFormed .number (.float x)
  | boolean (b : Bool) : WellFormed .boolean (.bool b)
  | binaryOp {name : String} : name ∈ binaryOperators → WellFormed .binaryOp (.str name)
  | unaryOp {name : String} : name ∈ unaryOperators → WellFormed .unaryOp (.str name)
  | stmtTag (tag : StmtTag) : tag ≠ .classDeclaration → WellFormed .stmtTag (.str tag.name)
  | exprTag (tag : ExprTag) : WellFormed .exprTag (.str tag.name)
  | node {role : Role} {node : Table Json} :
      (∀ p ∈ role.properties node, Table.get? node p.key = none → p.excuses none = true) →
      (∀ p ∈ role.properties node, ∀ v, Table.get? node p.key = some v → p.excuses (some v) = false →
        WellFormed p.shape v) →
      WellFormed (.node role) (.obj node)
  | nodes {role : Role} {items : List Json} :
      (∀ v ∈ items, WellFormed (.node role) v) → WellFormed (.nodes role) (.arr items)

/-- The whole numbers that are number literals of a module document. -/
def integersOf (d : Json) : List Int := (looksAs .module d).filterMap (·.question.integer?)

/-! ## A document without problems is well-formed -/

/-- Nothing is wrong with the form of what a walk sees. -/
def Sound (looks : List Look) : Prop := ∀ x ∈ looks, x.question.problem? = none

theorem sound_cons {x : Look} {a : List Look} : Sound (x :: a) ↔ x.question.problem? = none ∧ Sound a :=
  List.forall_mem_cons

theorem sound_map_under {step : Segment} {a : List Look} : Sound (a.map (Look.under step)) ↔ Sound a :=
  List.forall_mem_map

theorem sound_looksInItems {role : Role} {key : String} {i : Nat} {items : List Json} :
    Sound (looksInItems role key i items) ↔ ∀ v ∈ items, Sound (looksAs role v) := by
  induction items generalizing i with
  | nil => simp [looksInItems, Sound]
  | cons v rest ih =>
    rw [looksInItems, Sound, List.forall_mem_append, ← Sound, ← Sound, sound_map_under, ih, List.forall_mem_cons]

theorem sound_looksAs_obj {role : Role} {node : Table Json} :
    Sound (looksAs role (.obj node)) ↔ ∀ p ∈ role.properties node, Sound (looksAt p node) := by
  rw [looksAs, sound_cons, Sound, List.forall_mem_flatMap]
  exact and_iff_right rfl

/-- Neither a value nor anything inside it is wrong. -/
def Shape.Passes (key : String) (shape : Shape) (v : Json) : Prop :=
  shape.problem? key v = none ∧ Sound (shape.looks key v)

section

variable {p : Property} {node : Table Json}

theorem sound_looksAt_of_none (h : Table.get? node p.key = none) :
    Sound (looksAt p node) ↔ p.excuses none = true := by
  rw [looksAt_of_none h, Sound, List.forall_mem_singleton, Question.problem?]
  cases p.excuses none <;> simp

theorem sound_looksAt_of_get? {v : Json} (h : Table.get? node p.key = some v) :
    Sound (looksAt p node) ↔ (p.excuses (some v) = false → p.shape.Passes p.key v) := by
  rw [looksAt_of_get? h, sound_cons, Question.problem?]
  cases p.excuses (some v) <;> simp [Shape.Passes, Sound]

end

theorem eq_map_str_of_allStrings? {items : List Json} {names : List String} (h : allStrings? items = some names) :
    items = names.map .str := by
  induction items generalizing names with
  | nil =>
    cases h
    rfl
  | cons v rest ih =>
    cases v with
    | str s =>
      rw [allStrings?, Option.map_eq_some_iff] at h
      obtain ⟨others, hothers, rfl⟩ := h
      rw [ih hothers, List.map_cons]
    | _ => simp [allStrings?] at h

theorem eq_of_find?_name {α : Type} {all : List α} {name : α → String} {s : String} {a : α}
    (h : all.find? (fun k => name k = s) = some a) : name a = s :=
  of_decide_eq_true (List.find?_some h :)

theorem sound_nil : Sound [] := List.forall_mem_nil _

theorem WellFormed.passes {shape : Shape} {v : Json} (h : WellFormed shape v) : ∀ key, shape.Passes key v := by
  induction h with
  | text | integer | double | boolean => exact fun key => ⟨rfl, sound_nil⟩
  | texts names => exact fun key => ⟨by rw [Shape.problem?, allStrings?_map_str]; rfl, sound_nil⟩
  | binaryOp hname | unaryOp hname => exact fun key => ⟨by rw [Shape.problem?, if_pos hname], sound_nil⟩
  | exprTag tag => exact fun key => ⟨by rw [Shape.problem?, ExprTag.ofName?_name]; rfl, sound_nil⟩
  | stmtTag tag htag =>
    refine fun key => ⟨?_, sound_nil⟩
    rw [Shape.problem?, StmtTag.ofName?_name]
    cases tag with
    | classDeclaration => exact absurd rfl htag
    | _ => rfl
  | @node role node hneed hhas ih =>
    refine fun key => ⟨rfl, sound_map_under.2 (sound_looksAs_obj.2 fun p hp => ?_)⟩
    cases hv : Table.get? node p.key with
    | none => exact (sound_looksAt_of_none hv).2 (hneed p hp hv)
    | some v => exact (sound_looksAt_of_get? hv).2 fun hv' => ih p hp v hv hv' p.key
  | nodes hall ih =>
    exact fun key => ⟨rfl, sound_looksInItems.2 fun v hv => sound_map_under.1 (ih v hv key).2⟩

theorem wellFormed_str {shape : Shape} {key name : String} (h : shape.problem? key (.str name) = none)
    (hnode : ∀ role, shape ≠ .node role) : WellFormed shape (.str name) := by
  cases shape with
  | text => exact .text name
  | binaryOp =>
    refine .binaryOp (Classical.byContradiction fun hname => ?_)
    simp [Shape.problem?, hname] at h
  | unaryOp =>
    refine .unaryOp (Classical.byContradiction fun hname => ?_)
    simp [Shape.problem?, hname] at h
  | exprTag =>
    cases htag : ExprTag.ofName? name with
    | none => simp [Shape.problem?, htag] at h
    | some tag => exact (eq_of_find?_name htag : tag.name = name) ▸ .exprTag tag
  | stmtTag =>
    cases htag : StmtTag.ofName? name with
    | none => simp [Shape.problem?, htag] at h
    | some tag =>
      refine (eq_of_find?_name htag : tag.name = name) ▸ .stmtTag tag ?_
      rintro rfl
      simp [Shape.problem?, htag] at h
  | node role => exact absurd rfl (hnode role)
  | _ => cases h

theorem exists_obj_of_passes {role : Role} {key : String} {v : Json} (h : (Shape.node role).Passes key v) :
    ∃ node, v = .obj node := by
  cases v with
  | obj node => exact ⟨node, rfl⟩
  | _ => cases (sound_cons.1 (sound_map_under.1 h.2)).1

mutual

theorem wellFormed_of_passes : ∀ (v : Json) {shape : Shape} (key : String), shape.Passes key v → WellFormed shape v
  | .obj node, shape, key, h => by
    cases shape with
    | node role =>
      have hsound := sound_looksAs_obj.1 (sound_map_under.1 h.2)
      refine .node (fun p hp hv => (sound_looksAt_of_none hv).1 (hsound p hp)) fun p hp v hv hv' => ?_
      exact wellFormed_of_get? node hv ((sound_looksAt_of_get? hv).1 (hsound p hp) hv')
    | _ => cases h.1
  | .arr items, shape, key, h => by
    cases shape with
    | texts =>
      cases hnames : allStrings? items with
      | none =>
        have hproblem := h.1
        rw [Shape.problem?, hnames] at hproblem
        cases hproblem
      | some names =>
        rw [eq_map_str_of_allStrings? hnames]
        exact .texts names
    | node role => obtain ⟨_, ⟨⟩⟩ := exists_obj_of_passes h
    | nodes role => exact .nodes (wellFormed_of_mem key items (sound_looksInItems.1 h.2))
    | _ => cases h.1
  | .str name, shape, key, h => by
    cases shape with
    | node role => obtain ⟨_, ⟨⟩⟩ := exists_obj_of_passes h
    | _ => exact wellFormed_str h.1 (by rintro _ ⟨⟩)
  | .null, shape, key, h => by
    cases shape with
    | node role => obtain ⟨_, ⟨⟩⟩ := exists_obj_of_passes h
    | _ => cases h.1
  | .bool b, shape, key, h => by
    cases shape with
    | boolean => exact .boolean b
    | node role => obtain ⟨_, ⟨⟩⟩ := exists_obj_of_passes h
    | _ => cases h.1
  | .int n, shape, key, h => by
    cases shape with
    | number => exact .integer n
    | node role => obtain ⟨_, ⟨⟩⟩ := exists_obj_of_passes h
    | _ => cases h.1
  | .float x, shape, key, h => by
    cases shape with
    | number => exact .double x
    | node role => obtain ⟨_, ⟨⟩⟩ := exists_obj_of_passes h
    | _ => cases h.1

theorem wellFormed_of_get? : ∀ (node : List (String × Json)) {key : String} {v : Json} {shape : Shape} {label : String},
    Table.get? node key = some v → shape.Passes label v → WellFormed shape v
  | (k, w) :: rest, key, v, shape, label, hv, h => by
    rw [Table.get?] at hv
    by_cases hk : k = key
    · rw [if_pos hk, Option.some.injEq] at hv
      rw [← hv] at h ⊢
      exact wellFormed_of_passes w label h
    · rw [if_neg hk] at hv
      exact wellFormed_of_get? rest hv h

theorem wellFormed_of_mem (key : String) : ∀ (items : List Json) {role : Role}, (∀ v ∈ items, Sound (looksAs role v)) →
    ∀ v ∈ items, WellFormed (.node role) v
  | w :: rest, role, h, v, hv => by
    rw [List.forall_mem_cons] at h
    rcases List.mem_cons.1 hv with hw | hv
    · rw [hw]
      exact wellFormed_of_passes w key ⟨rfl, sound_map_under.2 h.1⟩
    · exact wellFormed_of_mem key rest h.2 v hv

end

theorem wellFormed_node_iff {role : Role} {v : Json} : WellFormed (.node role) v ↔ Sound (looksAs role v) :=
  ⟨fun h => sound_map_under.1 (h.passes "").2, fun h => wellFormed_of_passes v "" ⟨rfl, sound_map_under.2 h⟩⟩

/-! ## The error of a document -/

/-- The error is one of a text, met before there is a document. -/
def LoadError.OfText : LoadError → Prop
  | malformed _ | overflow => False
  | notText | tooManyDigits | loneSurrogate => True

namespace Look

/-- A number literal is met here that is a whole number beyond the doubles. -/
def TooLarge (x : Look) : Prop := ∃ n, x.question.integer? = some n ∧ Number.ofInt? n = none

theorem not_problem_of_tooLarge {x : Look} (h : x.TooLarge) : x.question.problem? = none := by
  obtain ⟨n, hn, -⟩ := h
  obtain ⟨path, question⟩ := x
  cases question with
  | node role found => cases hn
  | property p found =>
    dsimp only [Question.integer?] at hn
    split at hn
    · next hshape =>
      simp only [Question.problem?, hshape, Shape.problem?, ite_self]
    · cases hn

/-- What a look leads to: nothing, or one of the two errors. -/
theorem error?_cases (x : Look) :
    x.question.problem? = none ∧ ¬ x.TooLarge ∧ x.error? = none ∨ x.TooLarge ∧ x.error? = some .overflow ∨
      ∃ problem, x.question.problem? = some problem ∧ x.error? = some (.malformed ⟨x.path, problem⟩) := by
  rw [Look.error?]
  cases hproblem : x.question.problem? with
  | some problem => exact .inr (.inr ⟨problem, rfl, rfl⟩)
  | none =>
    cases hinteger : x.question.integer? with
    | none => exact .inl ⟨rfl, by rintro ⟨n, hn, -⟩; simp [hinteger] at hn, rfl⟩
    | some n =>
      cases hn : Number.ofInt? n with
      | none => exact .inr (.inl ⟨⟨n, hinteger, hn⟩, by simp [hn]⟩)
      | some a =>
        refine .inl ⟨rfl, ?_, by simp [hn]⟩
        rintro ⟨m, hm, hlarge⟩
        simp_all

theorem error?_eq_none_iff {x : Look} : x.error? = none ↔ x.question.problem? = none ∧ ¬ x.TooLarge := by
  rcases x.error?_cases with ⟨hproblem, hlarge, h⟩ | ⟨hlarge, h⟩ | ⟨problem, hproblem, h⟩
  · exact iff_of_true h ⟨hproblem, hlarge⟩
  · simp [h, hlarge]
  · simp [h, hproblem]

theorem error?_eq_overflow_iff {x : Look} : x.error? = some .overflow ↔ x.TooLarge := by
  rcases x.error?_cases with ⟨hproblem, hlarge, h⟩ | ⟨hlarge, h⟩ | ⟨problem, hproblem, h⟩
  · simp [h, hlarge]
  · exact iff_of_true h hlarge
  · have hlarge : ¬ x.TooLarge := fun hlarge => by simp [not_problem_of_tooLarge hlarge] at hproblem
    simp [h, hlarge]

theorem error?_eq_malformed_iff {x : Look} {e : DocumentError} :
    x.error? = some (.malformed e) ↔ x.path = e.path ∧ x.question.problem? = some e.problem := by
  obtain ⟨path, problem⟩ := e
  rcases x.error?_cases with ⟨hproblem, hlarge, h⟩ | ⟨hlarge, h⟩ | ⟨found, hproblem, h⟩
  · simp [h, hproblem]
  · simp [h, not_problem_of_tooLarge hlarge]
  · simp [h, hproblem]

theorem error?_ne (x : Look) {e : LoadError} (he : e.OfText) : x.error? ≠ some e := by
  rintro h
  rcases x.error?_cases with ⟨-, -, hx⟩ | ⟨-, hx⟩ | ⟨problem, -, hx⟩ <;> cases hx.symm.trans h <;> exact he

end Look

theorem firstError_eq_none_iff {looks : List Look} :
    firstError looks = none ↔ Sound looks ∧ ∀ x ∈ looks, ¬ x.TooLarge := by
  simp only [firstError, List.findSome?_eq_none_iff, Look.error?_eq_none_iff, Sound, forall_and]

theorem firstError_eq_some_iff {looks : List Look} {e : LoadError} :
    firstError looks = some e ↔
      ∃ before x after, looks = before ++ x :: after ∧ x.error? = some e ∧ firstError before = none := by
  simp only [firstError, List.findSome?_eq_some_iff, List.findSome?_eq_none_iff]

/-- Where nothing is malformed, a walk can only end at a number. -/
theorem firstError_of_sound {looks : List Look} (h : Sound looks) :
    firstError looks = none ∨ firstError looks = some .overflow := by
  cases he : firstError looks with
  | none => exact .inl rfl
  | some e =>
    obtain ⟨before, x, after, rfl, hx, -⟩ := firstError_eq_some_iff.1 he
    have hproblem : x.question.problem? = none := h x List.mem_append_cons_self
    rcases x.error?_cases with ⟨-, -, hnone⟩ | ⟨-, hoverflow⟩ | ⟨problem, hsome, -⟩
    · rw [hnone] at hx
      cases hx
    · exact .inr (hx.symm.trans hoverflow)
    · rw [hproblem] at hsome
      cases hsome

theorem firstError_eq_overflow_iff {looks : List Look} :
    firstError looks = some .overflow ↔
      ∃ before x after, looks = before ++ x :: after ∧ x.TooLarge ∧ Sound before := by
  constructor
  · intro h
    obtain ⟨before, x, after, hlooks, hx, hbefore⟩ := firstError_eq_some_iff.1 h
    exact ⟨before, x, after, hlooks, Look.error?_eq_overflow_iff.1 hx, (firstError_eq_none_iff.1 hbefore).1⟩
  · rintro ⟨before, x, after, rfl, hx, hbefore⟩
    -- An earlier number may be too large as well: the error is the same.
    rw [firstError_append, firstError, firstError, List.findSome?_cons, Look.error?_eq_overflow_iff.2 hx, ← firstError]
    rcases firstError_of_sound hbefore with h | h <;> rw [h] <;> rfl

theorem forall_integersOf_iff {d : Json} :
    (∀ n ∈ integersOf d, (Number.ofInt? n).isSome) ↔ ∀ x ∈ looksAs .module d, ¬ x.TooLarge := by
  simp only [integersOf, List.mem_filterMap, Look.TooLarge, Option.isSome_iff_ne_none, not_exists, not_and]
  exact ⟨fun h x hx n hn => h n ⟨x, hx, hn⟩, by rintro h n ⟨x, hx, hn⟩; exact h x hx n hn⟩

theorem Load.error?_eq_none_iff {α : Type} {r : Load α} : r.error? = none ↔ ∃ a, r = .ok a := by
  cases r <;> simp [Load.error?]

theorem Load.error?_eq_some_iff {α : Type} {r : Load α} {e : LoadError} : r.error? = some e ↔ r = .error e := by
  cases r <;> simp [Load.error?]

/-- **Documents are accepted by the grammar.**  A document is decoded to a module exactly if it is a well-formed module
and every whole number that is a number literal in it has a double near it.  The error of any other document is that of
the first look, in the order of the walk, that finds something wrong: a number beyond the doubles, if it is met before
anything malformed, and else the first problem, with the path to it.  There are no other errors. -/
theorem decodeModule_grammar (d : Json) :
    ((∃ m, decodeModule d = .ok m) ↔
      WellFormed (.node .module) d ∧ ∀ n ∈ integersOf d, (Number.ofInt? n).isSome) ∧
    (decodeModule d = .error .overflow ↔
      ∃ before x after, looksAs .module d = before ++ x :: after ∧ x.TooLarge ∧ Sound before) ∧
    (∀ e, decodeModule d = .error (.malformed e) ↔
      ∃ before x after, looksAs .module d = before ++ x :: after ∧
        (x.path = e.path ∧ x.question.problem? = some e.problem) ∧ Sound before ∧ ∀ y ∈ before, ¬ y.TooLarge) ∧
    ∀ e : LoadError, e.OfText → decodeModule d ≠ .error e := by
  refine ⟨?_, ?_, fun e => ?_, fun e he => ?_⟩
  · rw [← Load.error?_eq_none_iff, decodeModule_error?, firstError_eq_none_iff, wellFormed_node_iff,
      forall_integersOf_iff]
  · rw [← Load.error?_eq_some_iff, decodeModule_error?, firstError_eq_overflow_iff]
  · simp only [← Load.error?_eq_some_iff, decodeModule_error?, firstError_eq_some_iff, Look.error?_eq_malformed_iff,
      firstError_eq_none_iff]
  · rw [ne_eq, ← Load.error?_eq_some_iff, decodeModule_error?, firstError_eq_some_iff]
    rintro ⟨before, x, after, -, h, -⟩
    exact x.error?_ne he h

/-- Nothing that a branch needs is there, and yet the second body is what is wrong with it. -/
example : decodeModule (.obj [("name", .str "Main"),
      ("body", .arr [.obj [("statementKind", .str "if"), ("falseBody", .null)]])]) =
    .error (.malformed ⟨[.item "body" 0], .notList "falseBody" .null⟩) := rfl

end Thicket
