import Thicket.Value
/-!
# The store

Everything a program can change lives in one store: its scopes and its objects, each numbered as it is made.  Nothing is
ever taken out again.  A scope knows the scope around it, which was made before it, so that walking outward ends.

A name that is declared without a value is bound to `none`.
-/
namespace Thicket

/-- What a declared name stands for: a value, or nothing yet. -/
abbrev Binding := Option Value

structure Scope where
  parent : Option ScopeId
  bindings : Table Binding

/-- The fields of an object: a table in which every name stands once. -/
structure Record where
  table : Table Value
  nodup : (Table.names table).Nodup

namespace Record

def ofPairs (pairs : List (String × Value)) : Record := ⟨Table.ofPairs pairs, Table.nodup_names_ofPairs pairs⟩

def insert (r : Record) (name : String) (v : Value) : Record :=
  ⟨Table.insert r.table name v, Table.nodup_names_insert r.nodup name v⟩

end Record

structure Store where
  scopes : Array Scope
  objects : Array Record

namespace Store

def empty : Store := ⟨#[], #[]⟩

/-! ## Scopes -/

def bindings (s : Store) (e : ScopeId) : Table Binding :=
  match s.scopes[e]? with
  | some scope => scope.bindings
  | none => []

def parent? (s : Store) (e : ScopeId) : Option ScopeId :=
  match s.scopes[e]? with
  | some scope => scope.parent
  | none => none

/-- A new scope inside `parent`, or a root. -/
def newScope (s : Store) (parent : Option ScopeId) : ScopeId × Store :=
  (s.scopes.size, { s with scopes := s.scopes.push ⟨parent, []⟩ })

/-- At most `n` scopes from `e` outward. -/
def chainWithin (s : Store) : Nat → ScopeId → List ScopeId
  | 0, _ => []
  | n + 1, e =>
    e :: match s.parent? e with
      | some p => chainWithin s n p
      | none => []

/-- The scopes from `e` outward to its root.  Each was made before the one inside it, so there are at most `e + 1`. -/
def chain (s : Store) (e : ScopeId) : List ScopeId := s.chainWithin (e + 1) e

/-- Whether the scope itself, not one around it, declares a name. -/
def declares (s : Store) (e : ScopeId) (name : String) : Bool := Table.contains (s.bindings e) name

/-- The nearest scope from `e` outward that declares a name. -/
def nearest? (s : Store) (e : ScopeId) (name : String) : Option ScopeId :=
  (s.chain e).find? fun a => s.declares a name

/-- What a name means in scope `e`: nothing if it is not declared, else its binding in the nearest scope. -/
def lookup (s : Store) (e : ScopeId) (name : String) : Option Binding :=
  match s.nearest? e name with
  | some a => Table.get? (s.bindings a) name
  | none => none

/-- Binds a name in scope `e` itself. -/
def bind (s : Store) (e : ScopeId) (name : String) (b : Binding) : Store :=
  { s with scopes := s.scopes.modify e fun scope => { scope with bindings := Table.insert scope.bindings name b } }

/-- Declares a name in scope `e` itself, without a value.  A name that is there already loses its value. -/
def declare (s : Store) (e : ScopeId) (name : String) : Store := s.bind e name none

/-- Declares a name in scope `e` itself, with a value. -/
def define (s : Store) (e : ScopeId) (name : String) (v : Value) : Store := s.bind e name (some v)

/-- Gives a name a value in the nearest scope that declares it, and says whether there is one. -/
def assign (s : Store) (e : ScopeId) (name : String) (v : Value) : Bool × Store :=
  match s.nearest? e name with
  | some a => (true, s.define a name v)
  | none => (false, s)

/-! ## Objects -/

def fields (s : Store) (o : ObjectId) : Table Value :=
  match s.objects[o]? with
  | some record => record.table
  | none => []

def newObject (s : Store) (fields : List (String × Value)) : ObjectId × Store :=
  (s.objects.size, { s with objects := s.objects.push (.ofPairs fields) })

def setField (s : Store) (o : ObjectId) (name : String) (v : Value) : Store :=
  { s with objects := s.objects.modify o fun record => record.insert name v }

theorem nodup_names_fields (s : Store) (o : ObjectId) : (Table.names (s.fields o)).Nodup := by
  unfold fields
  cases s.objects[o]? with
  | none => exact List.nodup_nil
  | some record => exact record.nodup

/-! ## What each operation does to the views

`bindings` and `parent?` are the views of the scopes, `fields` that of the objects.  Binding a name changes the bindings
of one scope and no parent; a new scope or object leaves the old ones alone. -/

theorem size_bind (s : Store) (e : ScopeId) (name : String) (b : Binding) :
    (s.bind e name b).scopes.size = s.scopes.size := by
  simp [bind]

theorem parent?_bind (s : Store) (e a : ScopeId) (name : String) (b : Binding) :
    (s.bind e name b).parent? a = s.parent? a := by
  unfold parent? bind
  by_cases h : e = a
  · subst h
    cases hs : s.scopes[e]? <;> simp [Array.getElem?_modify, hs]
  · simp [Array.getElem?_modify, h]

theorem bindings_bind (s : Store) (e a : ScopeId) (name : String) (b : Binding) :
    (s.bind e name b).bindings a =
      if a = e ∧ e < s.scopes.size then Table.insert (s.bindings e) name b else s.bindings a := by
  unfold bindings bind
  by_cases h : a = e
  · subst h
    by_cases hlt : a < s.scopes.size
    · simp [hlt, Array.getElem_modify]
    · simp [hlt]
  · have hne : ¬ e = a := fun heq => h heq.symm
    simp [Array.getElem?_modify, h, hne]

theorem chainWithin_bind (s : Store) (e : ScopeId) (name : String) (b : Binding) :
    ∀ (n : Nat) (a : ScopeId), (s.bind e name b).chainWithin n a = s.chainWithin n a
  | 0, _ => rfl
  | n + 1, a => by
    unfold chainWithin
    rw [parent?_bind]
    cases s.parent? a with
    | none => rfl
    | some p => simp only [chainWithin_bind s e name b n p]

theorem chain_bind (s : Store) (e a : ScopeId) (name : String) (b : Binding) :
    (s.bind e name b).chain a = s.chain a := chainWithin_bind s e name b (a + 1) a

theorem assign_fst (s : Store) (e : ScopeId) (name : String) (v : Value) :
    (s.assign e name v).1 = (s.lookup e name).isSome := by
  unfold assign lookup
  cases h : s.nearest? e name with
  | none => rfl
  | some a =>
    have hdecl := List.find?_some h
    simpa [declares, Table.contains] using hdecl.symm

theorem bindings_newScope (s : Store) (parent : Option ScopeId) (a : ScopeId) :
    (s.newScope parent).2.bindings a = s.bindings a := by
  unfold bindings newScope
  by_cases h : a < s.scopes.size
  · simp [Array.getElem?_push, Nat.ne_of_lt h]
  · by_cases ha : a = s.scopes.size
    · simp [ha]
    · simp [Array.getElem?_push, ha]

theorem parent?_newScope (s : Store) (parent : Option ScopeId) (a : ScopeId) :
    (s.newScope parent).2.parent? a = if a = s.scopes.size then parent else s.parent? a := by
  unfold parent? newScope
  by_cases h : a = s.scopes.size <;> simp [Array.getElem?_push, h]

theorem fields_newObject (s : Store) (pairs : List (String × Value)) (o : ObjectId) :
    (s.newObject pairs).2.fields o = if o = s.objects.size then Table.ofPairs pairs else s.fields o := by
  unfold fields newObject
  by_cases h : o = s.objects.size
  · simp [h, Record.ofPairs]
  · simp [Array.getElem?_push, h]

theorem fields_setField (s : Store) (o a : ObjectId) (name : String) (v : Value) :
    (s.setField o name v).fields a =
      if a = o ∧ o < s.objects.size then Table.insert (s.fields o) name v else s.fields a := by
  unfold fields setField
  by_cases h : a = o
  · subst h
    by_cases hlt : a < s.objects.size
    · simp [hlt, Array.getElem_modify, Record.insert]
    · simp [hlt]
  · have hne : ¬ o = a := fun heq => h heq.symm
    simp [Array.getElem?_modify, h, hne]

end Store

/-! ## Blueprints -/

mutual

/-- The value a blueprint describes, with new objects and scopes for its objects and functions. -/
def Blueprint.build : Blueprint → Store → Value × Store
  | .number x, s => (.number x, s)
  | .boolean b, s => (.boolean b, s)
  | .string t, s => (.string t, s)
  | .null, s => (.null, s)
  | .object fields, s =>
    let (values, s) := Blueprint.buildFields fields s
    let (o, s) := s.newObject values
    (.object o, s)
  | .closure name params, s =>
    let (e, s) := s.newScope none
    (.closure ⟨name, params, [], e⟩, s)
  | .native name params returns, s => (.native ⟨name, params, returns, .own fun _ => .answer .null⟩, s)

def Blueprint.buildFields : List (String × Blueprint) → Store → List (String × Value) × Store
  | [], s => ([], s)
  | (name, b) :: rest, s =>
    let (v, s) := b.build s
    let (values, s) := Blueprint.buildFields rest s
    ((name, v) :: values, s)

end

end Thicket
