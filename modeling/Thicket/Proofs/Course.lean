import Thicket.Proofs.Call
import Thicket.Run.Program
/-!
# The course of a run

The evaluator is a recursion, so what it leaves is known from its end.  Here is what happens on the way.  Whatever one
of its functions is asked to do is a `Job`.  A job has others done, one after the other (`Job.parts`), and these again
others.  All of them in the order in which they are begun, each with the state in which it is begun and the fuel that it
has then, are the course of the first one (`Job.course`).
-/
namespace Thicket

/-- The state in which a block begins that runs inside scope `e`. -/
def State.inside (s : State) (e : ScopeId) : State := s.on fun store => (store.newScope (some e)).2

/-- The state in which the body of a function begins that is called with these arguments. -/
def State.called (s : State) (c : Closure) (args : List Value) : State :=
  (s.inside c.scope).on (bindParams c.params args s.store.scopes.size)

/-- What one of the functions of the evaluator is asked to do. -/
inductive Job where
  | evaluate (e : ScopeId) (expr : Expr)
  | fields (e : ScopeId) (rest : List (String × Expr)) (done : Table Value)
  | all (e : ScopeId) (exprs : List Expr)
  | apply (f : Value) (args : List Value)
  | execute (e : ScopeId) (body : List Stmt)
  | one (e : ScopeId) (st : Stmt)
  | loop (e : ScopeId) (condition : Expr) (body : List Stmt)
  | importNames (e : ScopeId) (source : String) (names : List String)
  | exportedValue (source name : String)
  | runModule (m : Module)

namespace Job

/-- Does the job and gives the values that come out of it. -/
def run (p : Program) (n : Nat) : Job → Run (List Value)
  | evaluate e expr => (fun v => [v]) <$> Thicket.evaluate p n e expr
  | fields e rest done => (fun t => t.map Prod.snd) <$> evaluateFields p n e rest done
  | all e exprs => evaluateAll p n e exprs
  | apply f args => (fun v => [v]) <$> Thicket.apply p n f args
  | execute e body => (fun o => o.result?.toList) <$> Thicket.execute p n e body
  | one e st => (fun o => o.result?.toList) <$> executeOne p n e st
  | loop e condition body => (fun o => o.result?.toList) <$> executeLoop p n e condition body
  | importNames e source names => (fun _ => []) <$> Thicket.importNames p n e source names
  | exportedValue source name => (fun v => [v]) <$> Thicket.exportedValue p n source name
  | runModule m => (fun r => r.result.toList ++ r.exports.map Prod.snd) <$> Thicket.runModule p n m

/-- What is begun when something has ended, if it has ended well. -/
def after {α β : Type} (r : EStateM.Result Stop State α) (next : α → State → List β) : List β :=
  match r with
  | .ok a s => next a s
  | .error _ _ => []

/-- A module is run if it is one of the program and its exports are not kept yet. -/
def exportParts (p : Program) (source : String) (s : State) : List (Job × State) :=
  if source = nativeName then []
  else
    match findModule? p.modules source, Table.get? s.memo source with
    | some m, none => [(.runModule m, s)]
    | _, _ => []

section Parts

variable (p : Program) (n : Nat)

def exprParts (e : ScopeId) (s : State) : Expr → List (Job × State)
  | .number _ | .boolean _ | .string _ | .null | .ref _ | .other _ _ => []
  | .object entries => [(.fields e entries [], s)]
  | .get target _ => [(.evaluate e target, s)]
  | .binary _ left right =>
    (.evaluate e left, s) :: after (Thicket.evaluate p n e left s) fun _ s => [(.evaluate e right, s)]
  | .unary _ operand => [(.evaluate e operand, s)]
  | .call callee args =>
    (.evaluate e callee, s) :: after (Thicket.evaluate p n e callee s) fun f s =>
      (.all e args, s) :: after (evaluateAll p n e args s) fun values s => [(.apply f values, s)]

def stmtParts (e : ScopeId) (s : State) : Stmt → List (Job × State)
  | .declare _ | .function _ _ _ | .giveBack none | .other _ _ => []
  | .run expr | .giveBack (some expr) | .assign _ expr => [(.evaluate e expr, s)]
  | .branch condition whenTrue whenFalse =>
    (.evaluate e condition, s) :: after (Thicket.evaluate p n e condition s) fun v s =>
      after (Run.condition v s) fun b s =>
        [(.execute s.store.scopes.size (if b then whenTrue else whenFalse), s.inside e)]
  | .loop condition body => [(.loop e condition body, s)]
  | .setField target _ expr =>
    (.evaluate e target, s) :: after (Thicket.evaluate p n e target s) fun _ s => [(.evaluate e expr, s)]
  | .importFrom source names => [(.importNames e source names, s)]

def loopParts (e : ScopeId) (condition : Expr) (body : List Stmt) (s : State) : List (Job × State) :=
  (.evaluate e condition, s) :: after (Thicket.evaluate p n e condition s) fun v s =>
    after (Run.condition v s) fun b s =>
      if b then
        (.execute s.store.scopes.size body, s.inside e) ::
          after (Thicket.execute p n s.store.scopes.size body (s.inside e)) fun outcome s =>
            match outcome with
            | .completed => [(.loop e condition body, s)]
            | .returned _ => []
      else []

/-- What the job has done on fuel `n` if its own is one more, and the state in which each of these is begun. -/
def parts : Job → State → List (Job × State)
  | evaluate e expr, s => exprParts p n e s expr
  | fields _ [] _, _ => []
  | fields e ((name, expr) :: rest) done, s =>
    (.evaluate e expr, s) :: after (Thicket.evaluate p n e expr s) fun v s =>
      [(.fields e rest (Table.insert done name v), s)]
  | all _ [], _ => []
  | all e (expr :: rest), s =>
    (.evaluate e expr, s) :: after (Thicket.evaluate p n e expr s) fun _ s => [(.all e rest, s)]
  | apply (.closure c) args, s =>
    if args.length ≠ c.params.length then [] else [(.execute s.store.scopes.size c.body, s.called c args)]
  | apply _ _, _ => []
  | execute _ [], _ => []
  | execute e (st :: rest), s =>
    (.one e st, s) :: after (executeOne p n e st s) fun outcome s =>
      match outcome with
      | .completed => [(.execute e rest, s)]
      | .returned _ => []
  | one e st, s => stmtParts p n e s st
  | loop e condition body, s => loopParts p n e condition body s
  | importNames _ _ [], _ => []
  | importNames e source (name :: rest), s =>
    (.exportedValue source name, s) :: after (Thicket.exportedValue p n source name s) fun v s =>
      [(.importNames e source rest, s.on (·.define e name v))]
  | exportedValue source _, s => exportParts p source s
  | runModule m, s => [(.execute s.store.scopes.size m.body, s.started m)]

end Parts

end Job

/-- A job that was begun. -/
structure Begun where
  job : Job
  state : State
  fuel : Nat

/-- How it ended. -/
def Begun.run (p : Program) (x : Begun) : EStateM.Result Stop State (List Value) := x.job.run p x.fuel x.state

namespace Job

/-- All that is begun on the way, the job itself first.  Without fuel nothing is begun. -/
def course (p : Program) : Nat → Job → State → List Begun
  | 0, _, _ => []
  | n + 1, j, s => ⟨j, s, n + 1⟩ :: (j.parts p n s).flatMap fun x => x.1.course p n x.2

-- the operand is no number, so the argument is never evaluated and the call never begun
example (p : Program) (s : State) :
    ((Job.evaluate 0 (.call (.unary ⟨"negative"⟩ .null) [.null])).course p 5 s).map Begun.job =
      [.evaluate 0 (.call (.unary ⟨"negative"⟩ .null) [.null]), .evaluate 0 (.unary ⟨"negative"⟩ .null),
        .evaluate 0 .null] :=
  rfl

theorem fuel_pos_of_mem_course {p : Program} : ∀ {n : Nat} {j : Job} {s : State} {x : Begun},
    x ∈ j.course p n s → 0 < x.fuel
  | 0, _, _, _, hx => by cases hx
  | n + 1, j, s, x, hx => by
    rcases List.mem_cons.1 hx with rfl | hx
    · exact Nat.succ_pos n
    · obtain ⟨part, -, hx⟩ := List.mem_flatMap.1 hx
      exact fuel_pos_of_mem_course hx

end Job

namespace Program

/-- What a program does before its first module is begun. -/
def opening (p : Program) (check : Bool) : Run Unit := do
  if check then checkModules p.modules
  Run.record (.programStarted p.modules.length)

theorem steps_eq {p : Program} {main : Module} (h : selectMain p.modules = .ok main) (fuel : Nat) (check : Bool) :
    p.steps fuel check =
      (p.opening check >>= fun _ => runModule p fuel main >>= fun r => pure (r.result.getD .null) : Run Value) := by
  cases check with
  | false =>
    simp only [steps, h, opening]
    rfl
  | true => simp only [steps, h, opening, if_true, bind_assoc]

/-- All that is begun on the way when the program is run. -/
def course (p : Program) (fuel : Nat) (check : Bool) (s : State) : List Begun :=
  match selectMain p.modules with
  | .error _ => []
  | .ok main => Job.after (p.opening check s) fun _ s => (Job.runModule main).course p fuel s

/-- The course of a program is that of its first module. -/
theorem course_of_mem {p : Program} {fuel : Nat} {check : Bool} {s : State} {x : Begun}
    (hx : x ∈ p.course fuel check s) :
    ∃ main s₁, selectMain p.modules = .ok main ∧ p.opening check s = .ok () s₁ ∧
      p.course fuel check s = (Job.runModule main).course p fuel s₁ := by
  unfold course at hx ⊢
  cases hmain : selectMain p.modules with
  | error f =>
    rw [hmain] at hx
    cases hx
  | ok main =>
    rw [hmain] at hx
    cases hopening : p.opening check s with
    | error y s₁ =>
      rw [hopening] at hx
      cases hx
    | ok u s₁ => exact ⟨main, s₁, rfl, rfl, rfl⟩

theorem fuel_pos_of_mem_course {p : Program} {fuel : Nat} {check : Bool} {s : State} {x : Begun}
    (hx : x ∈ p.course fuel check s) : 0 < x.fuel := by
  obtain ⟨main, s₁, -, -, hcourse⟩ := course_of_mem hx
  exact Job.fuel_pos_of_mem_course (hcourse ▸ hx)

end Program
end Thicket
