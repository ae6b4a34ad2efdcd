import Thicket.Host.Call
import Thicket.Operator
/-!
# Running a program

Expressions evaluate to values, statements run to an outcome, and a module runs its body in a scope of its own.  A
module is run when something is first imported from it; its exports are kept, so a second import does not run it again.

All of it is one recursion on a bound, the fuel, which is one less at every step down.  A run that ends does so with any
bound that is large enough, and always in the same way.  Nothing else bounds how deep calls may be nested: that a
machine has only so much room for them is left out.
-/
namespace Thicket

/-- What a run is given and does not change: the modules and the functions of the host. -/
structure Program where
  modules : List Module
  natives : List NativeFunction

namespace Program

def native? (p : Program) (name : String) : Option NativeFunction := p.natives.find? fun f => f.name = name

end Program

/-- How a statement ends: the next one follows, or the function around it returns. -/
inductive Outcome where
  | completed
  | returned (v : Value)

/-- What a call gives whose body ended with this outcome. -/
def Outcome.value : Outcome → Value
  | completed => .null
  | returned v => v

/-- What running a module gave: its exports, and the value of a `return` at its top level. -/
structure Finished where
  exports : Table Value
  result : Option Value

/-- The exports of a module whose body has run in scope `root`, name by name.  The first name without a value decides
the failure. -/
def collectExports (root : ScopeId) : List String → Table Value → Run (Table Value)
  | [], done => pure done
  | name :: rest, done => do
    match ← Run.ask (fun s => Table.get? (s.bindings root) name) with
    | none => Run.fail (.notInScope name)
    | some none => Run.fail (.unassignedVariable name)
    | some (some v) => collectExports root rest (Table.insert done name v)

/-- One export out of those of a module. -/
def pickExport (source name : String) (exports : Table Value) : Run Value :=
  match Table.get? exports name with
  | some v => pure v
  | none => Run.fail (.noSuchExport source name)

/-- Defines the parameters of a call in its scope, one after the other. -/
def bindParams (params : List String) (args : List Value) (e : ScopeId) (s : Store) : Store :=
  (params.zip args).foldl (fun s p => s.define e p.1 p.2) s

mutual

def evaluate (p : Program) : Nat → ScopeId → Expr → Run Value
  | 0, _, _ => throw .exhausted
  | _ + 1, _, .number x => pure (.number x)
  | _ + 1, _, .boolean b => pure (.boolean b)
  | _ + 1, _, .string s => pure (.string s)
  | _ + 1, _, .null => pure .null
  | n + 1, e, .object fields => do
    let values ← evaluateFields p n e fields []
    return .object (← Run.onStore (·.newObject values))
  | _ + 1, e, .ref name => Run.valueOf e name
  | n + 1, e, .get target field => do
    let o ← Run.object (← evaluate p n e target)
    Run.ask fun s => (Table.get? (s.fields o) field).getD .null
  | n + 1, e, .binary op left right => do
    let l ← evaluate p n e left
    let r ← evaluate p n e right
    Run.consult (op.apply · l r)
  | n + 1, e, .unary op operand => do
    let v ← evaluate p n e operand
    Run.ofExcept (op.apply v)
  | n + 1, e, .call callee args => do
    let f ← evaluate p n e callee
    let values ← evaluateAll p n e args
    apply p n f values
  | _ + 1, _, .other kind _ => throw (.fault (.unexpected kind))
termination_by structural n => n

/-- The fields of an object literal, in order.  A name that is given again keeps its place. -/
def evaluateFields (p : Program) : Nat → ScopeId → List (String × Expr) → Table Value → Run (Table Value)
  | 0, _, _, _ => throw .exhausted
  | _ + 1, _, [], done => pure done
  | n + 1, e, (name, expr) :: rest, done => do
    let v ← evaluate p n e expr
    evaluateFields p n e rest (Table.insert done name v)
termination_by structural n => n

def evaluateAll (p : Program) : Nat → ScopeId → List Expr → Run (List Value)
  | 0, _, _ => throw .exhausted
  | _ + 1, _, [] => pure []
  | n + 1, e, expr :: rest => do
    let v ← evaluate p n e expr
    let vs ← evaluateAll p n e rest
    return v :: vs
termination_by structural n => n

/-- Calls a function.  A function of the program runs in a new scope inside the one it was declared in. -/
def apply (p : Program) : Nat → Value → List Value → Run Value
  | 0, _, _ => throw .exhausted
  | n + 1, .closure c, args => do
    if args.length ≠ c.params.length then Run.fail (.arityMismatch c.params.length args.length)
    else
      let e ← Run.onStore (·.newScope (some c.scope))
      Run.change (bindParams c.params args e)
      let outcome ← execute p n e c.body
      return outcome.value
  | _ + 1, .native f, args => f.call args
  | _ + 1, v, _ => Run.fail (.notFunction v.kind)
termination_by structural n => n

/-- Runs statements in scope `e` until one returns. -/
def execute (p : Program) : Nat → ScopeId → List Stmt → Run Outcome
  | 0, _, _ => throw .exhausted
  | _ + 1, _, [] => pure .completed
  | n + 1, e, stmt :: rest => do
    match ← executeOne p n e stmt with
    | .completed => execute p n e rest
    | .returned v => return .returned v
termination_by structural n => n

def executeOne (p : Program) : Nat → ScopeId → Stmt → Run Outcome
  | 0, _, _ => throw .exhausted
  | n + 1, e, .run expr => do
    let _ ← evaluate p n e expr
    return .completed
  | _ + 1, _, .giveBack none => pure (.returned .null)
  | n + 1, e, .giveBack (some expr) => do
    let v ← evaluate p n e expr
    return .returned v
  | _ + 1, e, .declare name => do
    Run.change (·.declare e name)
    return .completed
  | n + 1, e, .assign name expr => do
    let v ← evaluate p n e expr
    Run.assign e name v
    return .completed
  | _ + 1, e, .function name params body => do
    Run.change (·.define e name (.closure ⟨name, params, body, e⟩))
    return .completed
  | n + 1, e, .branch condition whenTrue whenFalse => do
    let b ← Run.condition (← evaluate p n e condition)
    let inner ← Run.onStore (·.newScope (some e))
    execute p n inner (if b then whenTrue else whenFalse)
  | n + 1, e, .loop condition body => executeLoop p n e condition body
  | n + 1, e, .setField target field expr => do
    let t ← evaluate p n e target
    let v ← evaluate p n e expr
    let o ← Run.object t
    Run.change (·.setField o field v)
    return .completed
  | n + 1, e, .importFrom source names => do
    importNames p n e source names
    return .completed
  | _ + 1, _, .other kind _ => throw (.fault (.unexpected kind))
termination_by structural n => n

/-- Runs the body in a new scope for as long as the condition holds. -/
def executeLoop (p : Program) : Nat → ScopeId → Expr → List Stmt → Run Outcome
  | 0, _, _, _ => throw .exhausted
  | n + 1, e, condition, body => do
    if ← Run.condition (← evaluate p n e condition) then
      let inner ← Run.onStore (·.newScope (some e))
      match ← execute p n inner body with
      | .completed => executeLoop p n e condition body
      | .returned v => return .returned v
    else return .completed
termination_by structural n => n

/-- Imports names one after the other, so those before a failing one are there. -/
def importNames (p : Program) : Nat → ScopeId → String → List String → Run Unit
  | 0, _, _, _ => throw .exhausted
  | _ + 1, _, _, [] => pure ()
  | n + 1, e, source, name :: rest => do
    let v ← exportedValue p n source name
    Run.change (·.define e name v)
    importNames p n e source rest
termination_by structural n => n

/-- The value that a module exports under a name.  The module is run if its exports are not kept yet. -/
def exportedValue (p : Program) : Nat → String → String → Run Value
  | 0, _, _ => throw .exhausted
  | n + 1, source, name =>
    if source = nativeName then
      match p.native? name with
      | some f => pure (.native f)
      | none => Run.fail (.noSuchExport source name)
    else
      match findModule? p.modules source with
      | none => Run.fail (.noSuchModule source)
      | some m => do
        match Table.get? (← get).memo source with
        | some exports => pickExport source name exports
        | none =>
          let finished ← runModule p n m
          modify fun s => { s with memo := Table.insert s.memo source finished.exports }
          Run.record (.exportsKept source (Table.names (Table.sorted finished.exports)))
          pickExport source name finished.exports
termination_by structural n => n

/-- Runs the body of a module in a scope of its own and collects its exports. -/
def runModule (p : Program) : Nat → Module → Run Finished
  | 0, _ => throw .exhausted
  | n + 1, m => do
    Run.record (.moduleStarted m.name)
    let root ← Run.onStore (·.newScope none)
    let outcome ← execute p n root m.body
    let exports ← collectExports root m.exports []
    Run.record (.moduleFinished m.name exports.length)
    return ⟨exports, match outcome with | .completed => none | .returned v => some v⟩
termination_by structural n => n

end

end Thicket
