import Thicket.Stop
import Thicket.Store
/-!
# Operators

Each operator checks the kinds of its operands before it computes, the left one first.  What an operator does is looked
up by its name, and a name that stands nowhere in the tables breaks the run off.

Equality compares objects field by field, through the store.  It can go on for ever if both sides reach a cycle, and
then it meets some pair of objects inside the comparison of that same pair.  There are only as many pairs as the square
of the number of objects, so a comparison nested more deeply than that never ends; `Store.equal` stops there.
-/
namespace Thicket

def mismatch {α : Type} (expected : List Kind) (actual : Kind) : Except Stop α :=
  .error (.failure (.typeMismatch expected actual))

/-- The kinds that may stand on either side of an equality, as failures list them. -/
def equatable : List Kind := [.number, .boolean, .null, .object]

/-- Whether each field on the left has an equal one on the right.  The fields are compared in order, and the first
difference, or failure, decides. -/
def fieldsEqual (equal : Value → Value → Except Stop Bool) (right : Table Value) : Table Value → Except Stop Bool
  | [] => .ok true
  | (name, v) :: rest =>
    match Table.get? right name with
    | none => .ok false
    | some w =>
      match equal v w with
      | .ok true => fieldsEqual equal right rest
      | .ok false => .ok false
      | .error e => .error e

namespace Store

/-- Structural equality, with comparisons nested at most `n` deep.  Functions cannot be compared.  Null differs from
everything else; any other two kinds, and two texts, cannot be compared. -/
def equalWithin (s : Store) : Nat → Value → Value → Except Stop Bool
  | 0, _, _ => .error .exhausted
  | n + 1, left, right =>
    if left.isCallable then mismatch equatable left.kind
    else if right.isCallable then mismatch equatable right.kind
    else
      match left, right with
      | .null, .null => .ok true
      | .null, _ => .ok false
      | _, .null => .ok false
      | .object a, .object b =>
        if (s.fields a).length ≠ (s.fields b).length then .ok false
        else fieldsEqual (s.equalWithin n) (s.fields b) (s.fields a)
      | .number x, .number y => .ok (x == y)
      | .boolean x, .boolean y => .ok (x == y)
      | _, _ => mismatch [left.kind] right.kind

/-- Structural equality.  It is exhausted exactly when the comparison never ends. -/
def equal (s : Store) (left right : Value) : Except Stop Bool :=
  s.equalWithin (s.objects.size * s.objects.size + 1) left right

end Store

/-- Two numbers, or the failure that the first operand of another kind gives. -/
def bothNumbers {α : Type} (f : Float → Float → α) : Value → Value → Except Stop α
  | .number x, .number y => .ok (f x y)
  | .number _, right => mismatch [.number] right.kind
  | left, _ => mismatch [.number] left.kind

def bothBooleans {α : Type} (f : Bool → Bool → α) : Value → Value → Except Stop α
  | .boolean x, .boolean y => .ok (f x y)
  | .boolean _, right => mismatch [.boolean] right.kind
  | left, _ => mismatch [.boolean] left.kind

namespace BinaryOp

def arithmetic : List (String × (Float → Float → Float)) :=
  [("add", (· + ·)), ("subtract", (· - ·)), ("multiply", (· * ·)), ("divide", (· / ·))]

def relational : List (String × (Float → Float → Bool)) :=
  [("lessThan", fun x y => x < y), ("greaterThan", fun x y => y < x),
   ("lessThanEquals", fun x y => x ≤ y), ("greaterThanEquals", fun x y => y ≤ x)]

/-- Both operands have been evaluated already, also those of `and` and `or`. -/
def apply (s : Store) (op : BinaryOp) (l r : Value) : Except Stop Value :=
  match arithmetic.lookup op.name with
  | some f => bothNumbers (fun x y => .number (f x y)) l r
  | none =>
    match relational.lookup op.name with
    | some f => bothNumbers (fun x y => .boolean (f x y)) l r
    | none =>
      if op.name = "and" then bothBooleans (fun x y => .boolean (x && y)) l r
      else if op.name = "or" then bothBooleans (fun x y => .boolean (x || y)) l r
      else if op.name = "equals" then (s.equal l r).map .boolean
      else if op.name = "notEqual" then (s.equal l r).map fun b => .boolean !b
      else .error (.fault (.unexpected op.name))

@[simp] theorem apply_equals (s : Store) (l r : Value) : apply s ⟨"equals"⟩ l r = (s.equal l r).map .boolean := rfl

@[simp] theorem apply_notEqual (s : Store) (l r : Value) :
    apply s ⟨"notEqual"⟩ l r = (s.equal l r).map fun b => .boolean !b := rfl

end BinaryOp

def oneBoolean {α : Type} (f : Bool → α) : Value → Except Stop α
  | .boolean b => .ok (f b)
  | v => mismatch [.boolean] v.kind

def oneNumber {α : Type} (f : Float → α) : Value → Except Stop α
  | .number x => .ok (f x)
  | v => mismatch [.number] v.kind

namespace UnaryOp

def apply (op : UnaryOp) (v : Value) : Except Stop Value :=
  if op.name = "not" then oneBoolean (fun b => .boolean !b) v
  else if op.name = "negative" then oneNumber (fun x => .number (-x)) v
  else .error (.fault (.unexpected op.name))

end UnaryOp
end Thicket
