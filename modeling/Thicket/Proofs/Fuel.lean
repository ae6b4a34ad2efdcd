import Thicket.Proofs.Lockstep
import Thicket.Run.Program
/-!
# More fuel changes nothing

A run that has not used up its fuel is the same, state and all, with any more of it (`run_eq_of_le`).  So what a program
does is well defined: it is what it does with any fuel that is enough.

Fuel is spent by the evaluator's calls of itself and by nothing else, so the proof is one induction on the fuel.  A
computation `Extends` another if it does the same wherever the other has not run out, and putting computations one after
the other keeps that.
-/
namespace Thicket

/-- The first computation has run out of fuel, or the second does just the same. -/
def Run.Extends {α : Type} (f g : Run α) : Prop := ∀ s, stopOf (f s) = some .exhausted ∨ g s = f s

namespace Run.Extends

variable {α β : Type}

theorem refl (f : Run α) : f.Extends f := fun _ => .inr rfl

theorem exhausted (g : Run α) : Run.Extends (throw .exhausted) g := fun _ => .inl rfl

theorem trans {f g h : Run α} (hfg : f.Extends g) (hgh : g.Extends h) : f.Extends h := by
  intro s
  rcases hfg s with hf | hf
  · exact .inl hf
  · rcases hgh s with hg | hg
    · rw [hf] at hg
      exact .inl hg
    · exact .inr (hg.trans hf)

theorem bind {f g : Run α} {k l : α → Run β} (h : f.Extends g) (hk : ∀ a, (k a).Extends (l a)) :
    (f >>= k).Extends (g >>= l) := by
  intro s
  show stopOf (EStateM.bind f k s) = _ ∨ EStateM.bind g l s = EStateM.bind f k s
  unfold EStateM.bind
  rcases h s with hf | hf
  · obtain ⟨s', hs'⟩ := eq_error_of_stopOf hf
    rw [hs']
    exact .inl rfl
  · rw [hf]
    cases f s with
    | ok a s' => exact hk a s'
    | error x s' => exact .inr rfl

end Run.Extends

/-! ## One unit more -/

/-- Everything that the evaluator does on fuel `n`, it does on one more. -/
structure Steady (p : Program) (n : Nat) : Prop where
  evaluate : ∀ e expr, (evaluate p n e expr).Extends (evaluate p (n + 1) e expr)
  fields : ∀ e fields done, (evaluateFields p n e fields done).Extends (evaluateFields p (n + 1) e fields done)
  all : ∀ e exprs, (evaluateAll p n e exprs).Extends (evaluateAll p (n + 1) e exprs)
  apply : ∀ f args, (apply p n f args).Extends (apply p (n + 1) f args)
  execute : ∀ e body, (execute p n e body).Extends (execute p (n + 1) e body)
  one : ∀ e st, (executeOne p n e st).Extends (executeOne p (n + 1) e st)
  loop : ∀ e condition body, (executeLoop p n e condition body).Extends (executeLoop p (n + 1) e condition body)
  importNames : ∀ e source names, (importNames p n e source names).Extends (importNames p (n + 1) e source names)
  exported : ∀ source name, (exportedValue p n source name).Extends (exportedValue p (n + 1) source name)
  module : ∀ m, (runModule p n m).Extends (runModule p (n + 1) m)

namespace Steady

open Run.Extends (refl bind)

variable {p : Program} {n : Nat}

theorem zero : Steady p 0 := by
  constructor <;> intros <;> exact Run.Extends.exhausted _

theorem evaluate_succ (h : Steady p n) (e : ScopeId) (expr : Expr) :
    (Thicket.evaluate p (n + 1) e expr).Extends (Thicket.evaluate p (n + 2) e expr) := by
  cases expr with
  | number | boolean | string | null | ref | other => exact refl _
  | object fields => exact bind (h.fields e fields []) fun _ => refl _
  | get target field => exact bind (h.evaluate e target) fun _ => refl _
  | binary op left right => exact bind (h.evaluate e left) fun _ => bind (h.evaluate e right) fun _ => refl _
  | unary op operand => exact bind (h.evaluate e operand) fun _ => refl _
  | call callee args =>
    exact bind (h.evaluate e callee) fun f => bind (h.all e args) fun values => h.apply f values

theorem fields_succ (h : Steady p n) (e : ScopeId) (fields : List (String × Expr)) (done : Table Value) :
    (evaluateFields p (n + 1) e fields done).Extends (evaluateFields p (n + 2) e fields done) := by
  cases fields with
  | nil => exact refl _
  | cons field rest => exact bind (h.evaluate e field.2) fun v => h.fields e rest _

theorem all_succ (h : Steady p n) (e : ScopeId) (exprs : List Expr) :
    (evaluateAll p (n + 1) e exprs).Extends (evaluateAll p (n + 2) e exprs) := by
  cases exprs with
  | nil => exact refl _
  | cons expr rest => exact bind (h.evaluate e expr) fun _ => bind (h.all e rest) fun _ => refl _

theorem apply_succ (h : Steady p n) (f : Value) (args : List Value) :
    (Thicket.apply p (n + 1) f args).Extends (Thicket.apply p (n + 2) f args) := by
  cases f with
  | closure c =>
    simp only [Thicket.apply]
    split
    · exact refl _
    · exact bind (refl _) fun e => bind (refl _) fun _ => bind (h.execute e c.body) fun _ => refl _
  | _ => exact refl _

theorem execute_succ (h : Steady p n) (e : ScopeId) (body : List Stmt) :
    (Thicket.execute p (n + 1) e body).Extends (Thicket.execute p (n + 2) e body) := by
  cases body with
  | nil => exact refl _
  | cons st rest =>
    refine bind (h.one e st) fun outcome => ?_
    cases outcome with
    | completed => exact h.execute e rest
    | returned v => exact refl _

theorem one_succ (h : Steady p n) (e : ScopeId) (st : Stmt) :
    (executeOne p (n + 1) e st).Extends (executeOne p (n + 2) e st) := by
  cases st with
  | run expr => exact bind (h.evaluate e expr) fun _ => refl _
  | giveBack value =>
    cases value with
    | none => exact refl _
    | some expr => exact bind (h.evaluate e expr) fun _ => refl _
  | declare | function | other => exact refl _
  | assign name expr => exact bind (h.evaluate e expr) fun _ => refl _
  | branch condition whenTrue whenFalse =>
    exact bind (h.evaluate e condition) fun _ => bind (refl _) fun _ => bind (refl _) fun inner => h.execute inner _
  | loop condition body => exact h.loop e condition body
  | setField target field expr => exact bind (h.evaluate e target) fun _ => bind (h.evaluate e expr) fun _ => refl _
  | importFrom source names => exact bind (h.importNames e source names) fun _ => refl _

theorem loop_succ (h : Steady p n) (e : ScopeId) (condition : Expr) (body : List Stmt) :
    (executeLoop p (n + 1) e condition body).Extends (executeLoop p (n + 2) e condition body) := by
  refine bind (h.evaluate e condition) fun v => bind (refl _) fun b => ?_
  cases b with
  | false => exact refl _
  | true =>
    refine bind (refl _) fun inner => bind (h.execute inner body) fun outcome => ?_
    cases outcome with
    | completed => exact h.loop e condition body
    | returned v => exact refl _

theorem importNames_succ (h : Steady p n) (e : ScopeId) (source : String) (names : List String) :
    (Thicket.importNames p (n + 1) e source names).Extends (Thicket.importNames p (n + 2) e source names) := by
  cases names with
  | nil => exact refl _
  | cons name rest =>
    exact bind (h.exported source name) fun _ => bind (refl _) fun _ => h.importNames e source rest

theorem exported_succ (h : Steady p n) (source name : String) :
    (exportedValue p (n + 1) source name).Extends (exportedValue p (n + 2) source name) := by
  simp only [exportedValue]
  split
  · exact refl _
  · split
    · exact refl _
    · refine bind (refl _) fun s => ?_
      split
      · exact refl _
      · exact bind (h.module _) fun _ => refl _

theorem module_succ (h : Steady p n) (m : Module) : (runModule p (n + 1) m).Extends (runModule p (n + 2) m) :=
  bind (refl _) fun _ => bind (refl _) fun root => bind (h.execute root m.body) fun _ => refl _

end Steady

theorem steady (p : Program) : ∀ n, Steady p n
  | 0 => .zero
  | n + 1 =>
    have h := steady p n
    ⟨h.evaluate_succ, h.fields_succ, h.all_succ, h.apply_succ, h.execute_succ, h.one_succ, h.loop_succ,
      h.importNames_succ, h.exported_succ, h.module_succ⟩

theorem runModule_extends (p : Program) (m : Module) {n n' : Nat} (h : n ≤ n') :
    (runModule p n m).Extends (runModule p n' m) := by
  induction h with
  | refl => exact .refl _
  | step _ ih => exact ih.trans ((steady p _).module m)

theorem Program.steps_extends (p : Program) (check : Bool) {n n' : Nat} (h : n ≤ n') :
    (p.steps n check).Extends (p.steps n' check) := by
  unfold Program.steps
  cases selectMain p.modules with
  | error f => exact .refl _
  | ok main =>
    have hrest : Run.Extends
        (do Run.record (.programStarted p.modules.length)
            return (← runModule p n main).result.getD .null : Run Value)
        (do Run.record (.programStarted p.modules.length)
            return (← runModule p n' main).result.getD .null) :=
      .bind (.refl _) fun _ => .bind (runModule_extends p main h) fun _ => .refl _
    cases check with
    | false => exact hrest
    | true => exact .bind (.refl _) fun _ => hrest

/-- **A program that has not run out of fuel does the same with more.** -/
theorem Program.run_eq_of_le (p : Program) (check : Bool) (s : State) {n n' : Nat} (h : n ≤ n')
    (hstop : stopOf (p.run n check s) ≠ some .exhausted) : p.run n' check s = p.run n check s := by
  unfold Program.run at hstop ⊢
  rcases p.steps_extends check h s with hsteps | hsteps
  · obtain ⟨s', hs'⟩ := eq_error_of_stopOf hsteps
    rw [hs'] at hstop
    exact absurd rfl hstop
  · rw [hsteps]

end Thicket
