import Thicket.Operator
/-!
# Labels

Operators go by their names, and so do the kinds of nodes.  The names in a program that mean something only if whoever
reads it knows them are its labels: those of its operators, and the kinds of nodes that are none of the language's.

Here is what the evaluator knows.  `BinaryOp.means` and `UnaryOp.means` say once what an operator can do; the rest of
the theory goes by them and not by the names.
-/
namespace Thicket

/-! ## The labels in a program -/

inductive Label where
  | binary (op : BinaryOp)
  | unary (op : UnaryOp)
  /-- A kind that is none of the language's. -/
  | kind (name : String)
  deriving DecidableEq

def Label.name : Label → String
  | binary op => op.name
  | unary op => op.name
  | kind name => name

mutual

def Expr.labels : Expr → List Label
  | .number _ | .boolean _ | .string _ | .null | .ref _ => []
  | .object fields => fieldLabels fields
  | .get target _ => target.labels
  | .binary op left right => .binary op :: (left.labels ++ right.labels)
  | .unary op operand => .unary op :: operand.labels
  | .call callee args => callee.labels ++ exprLabels args
  | .other kind _ => [.kind kind]

def exprLabels : List Expr → List Label
  | [] => []
  | e :: rest => e.labels ++ exprLabels rest

def fieldLabels : List (String × Expr) → List Label
  | [] => []
  | (_, e) :: rest => e.labels ++ fieldLabels rest

end

mutual

/-- The labels in a statement, at any depth. -/
def Stmt.labels : Stmt → List Label
  | .function _ _ body => labelsIn body
  | .giveBack (some e) => e.labels
  | .giveBack none | .declare _ | .importFrom _ _ => []
  | .assign _ e => e.labels
  | .branch condition whenTrue whenFalse => condition.labels ++ (labelsIn whenTrue ++ labelsIn whenFalse)
  | .loop condition body => condition.labels ++ labelsIn body
  | .setField target _ e => target.labels ++ e.labels
  | .run e => e.labels
  | .other kind _ => [.kind kind]

def labelsIn : List Stmt → List Label
  | [] => []
  | st :: rest => st.labels ++ labelsIn rest

end

theorem forall_mem_labelsIn {R : Label → Prop} : ∀ {body : List Stmt},
    (∀ x ∈ labelsIn body, R x) ↔ ∀ st ∈ body, ∀ x ∈ st.labels, R x
  | [] => by simp [labelsIn]
  | st :: rest => by
    rw [labelsIn, List.forall_mem_append, List.forall_mem_cons, forall_mem_labelsIn]

/-! ## What the evaluator knows -/

namespace BinaryOp

/-- The names by which the evaluator knows an operator between two operands. -/
def names : List String := arithmetic.map Prod.fst ++ relational.map Prod.fst ++ ["and", "or", "equals", "notEqual"]

/-- What an operator does: it computes with two numbers, compares them, combines two truth values, or compares any two
values; or nothing is known about it. -/
inductive Means (op : BinaryOp) : Prop
  | number (f : Float → Float → Float) :
      (∀ s l r, op.apply s l r = bothNumbers (fun x y => .number (f x y)) l r) → Means op
  | relation (f : Float → Float → Bool) :
      (∀ s l r, op.apply s l r = bothNumbers (fun x y => .boolean (f x y)) l r) → Means op
  | logic (f : Bool → Bool → Bool) :
      (∀ s l r, op.apply s l r = bothBooleans (fun x y => .boolean (f x y)) l r) → Means op
  | equality (f : Bool → Bool) : (∀ s l r, op.apply s l r = (s.equal l r).map fun b => .boolean (f b)) → Means op
  | nothing : op.name ∉ names → (∀ s l r, op.apply s l r = .error (.fault (.unexpected op.name))) → Means op

theorem means (op : BinaryOp) : op.Means := by
  cases hnum : arithmetic.lookup op.name with
  | some f => exact .number f fun s l r => by simp only [apply, hnum]
  | none =>
    cases hrel : relational.lookup op.name with
    | some f => exact .relation f fun s l r => by simp only [apply, hnum, hrel]
    | none =>
      by_cases hand : op.name = "and"
      · exact .logic (· && ·) fun s l r => by simp only [apply, hnum, hrel, if_pos hand]
      by_cases hor : op.name = "or"
      · exact .logic (· || ·) fun s l r => by simp only [apply, hnum, hrel, if_neg hand, if_pos hor]
      by_cases heq : op.name = "equals"
      · exact .equality id fun s l r => by simp only [apply, hnum, hrel, if_neg hand, if_neg hor, if_pos heq, id]
      by_cases hne : op.name = "notEqual"
      · exact .equality (!·) fun s l r => by
          simp only [apply, hnum, hrel, if_neg hand, if_neg hor, if_neg heq, if_pos hne]
      refine .nothing (fun hmem => ?_) fun s l r => by
        simp only [apply, hnum, hrel, if_neg hand, if_neg hor, if_neg heq, if_neg hne]
      rw [names, List.mem_append, List.mem_append, List.mem_map, List.mem_map] at hmem
      rcases hmem with (⟨x, hx, hname⟩ | ⟨x, hx, hname⟩) | hmem
      · exact absurd hname.symm (by simpa using List.lookup_eq_none_iff.1 hnum x hx)
      · exact absurd hname.symm (by simpa using List.lookup_eq_none_iff.1 hrel x hx)
      · simp [hand, hor, heq, hne] at hmem

end BinaryOp

namespace UnaryOp

/-- The names by which the evaluator knows an operator before its operand. -/
def names : List String := ["not", "negative"]

inductive Means (op : UnaryOp) : Prop
  | complement : (∀ v, op.apply v = oneBoolean (fun b => .boolean !b) v) → Means op
  | negation : (∀ v, op.apply v = oneNumber (fun x => .number (-x)) v) → Means op
  | nothing : op.name ∉ names → (∀ v, op.apply v = .error (.fault (.unexpected op.name))) → Means op

theorem means (op : UnaryOp) : op.Means := by
  by_cases hnot : op.name = "not"
  · exact .complement fun v => by rw [apply, if_pos hnot]
  by_cases hneg : op.name = "negative"
  · exact .negation fun v => by rw [apply, if_neg hnot, if_pos hneg]
  exact .nothing (by simp [names, hnot, hneg]) fun v => by rw [apply, if_neg hnot, if_neg hneg]

end UnaryOp

/-- The evaluator knows this label. -/
def Label.Known : Label → Prop
  | binary op => op.name ∈ BinaryOp.names
  | unary op => op.name ∈ UnaryOp.names
  | kind _ => False

instance : DecidablePred Label.Known
  | .binary op => inferInstanceAs (Decidable (op.name ∈ BinaryOp.names))
  | .unary op => inferInstanceAs (Decidable (op.name ∈ UnaryOp.names))
  | .kind _ => inferInstanceAs (Decidable False)

end Thicket
