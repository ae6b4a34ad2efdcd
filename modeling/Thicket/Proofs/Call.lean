import Thicket.Proofs.Lockstep
/-!
# Calls into the evaluator

What can be asked of the evaluator from outside, as data, so that a law of all of it is stated once.  The same is asked
in the course of a run, again and again and from states of all kinds, so such a law is stated for any state.
-/
namespace Thicket

inductive Call where
  | evaluate (e : ScopeId) (expr : Expr)
  | apply (f : Value) (args : List Value)
  | statement (e : ScopeId) (st : Stmt)
  | block (e : ScopeId) (body : List Stmt)
  | exportedValue (source name : String)
  | runModule (m : Module)

inductive Answer where
  | value (v : Value)
  | outcome (o : Outcome)
  | finished (r : Finished)

def Call.run (p : Program) (n : Nat) : Call → Run Answer
  | .evaluate e expr => Answer.value <$> Thicket.evaluate p n e expr
  | .apply f args => Answer.value <$> Thicket.apply p n f args
  | .statement e st => Answer.outcome <$> executeOne p n e st
  | .block e body => Answer.outcome <$> execute p n e body
  | .exportedValue source name => Answer.value <$> Thicket.exportedValue p n source name
  | .runModule m => Answer.finished <$> Thicket.runModule p n m

theorem stateOf_map {α β : Type} (g : α → β) (f : Run α) (s : State) : stateOf ((g <$> f) s) = stateOf (f s) := by
  show stateOf (EStateM.map g f s) = stateOf (f s)
  unfold EStateM.map
  cases f s <;> rfl

theorem ok_of_map {α β : Type} {g : α → β} (hg : Function.Injective g) {f : Run α} {s : State} {a : α}
    (h : outcomeOf ((g <$> f) s) = .ok (g a)) : f s = .ok a (stateOf (f s)) := by
  have hmap : outcomeOf (EStateM.map g f s) = .ok (g a) := h
  unfold EStateM.map at hmap
  cases hf : f s with
  | ok b s' =>
    rw [hf] at hmap
    cases hg (Except.ok.inj hmap)
    rfl
  | error x s' =>
    rw [hf] at hmap
    cases hmap

/-! ## Calls in step -/

namespace Pairing

variable {P : Pairing} {p q : Program} {w : P.World}

theorem InStep.map {α β : Type} {G : P.World → α → Prop} {f g : Run α} (h : P.InStep w G f g) (k : α → β) :
    P.InStep w (fun _ _ => True) (k <$> f) (k <$> g) := by
  intro s t hst
  have hends := h s t hst
  show P.Ends w _ (EStateM.map k f s) (EStateM.map k g t)
  unfold EStateM.map
  generalize f s = r at hends
  generalize g t = r' at hends
  cases hends with
  | done hw hsim _ => exact .done hw hsim trivial
  | stopped hx => exact .stopped hx

/-- The call may be made.  Running a module is not among these calls: its body begins in a state of its own. -/
def Admits (P : Pairing) (w : P.World) : Call → Prop
  | .evaluate e expr => P.Here w e ∧ P.MayMeetAll expr.labels
  | .apply f args => P.Fine w f ∧ P.FineAll w args
  | .statement e st => P.Room w e st.declared ∧ P.Allowed w st
  | .block e body => P.Room w e (declaredIn body) ∧ P.Code w body
  | .exportedValue source _ => P.MayImport w source
  | .runModule _ => False

theorem Runs.call_inStep (R : P.Runs p q) {c : Call} (hc : P.Admits w c) (n : Nat) :
    P.InStep w (fun _ _ => True) (c.run p n) (c.run q n) := by
  have h := R.upto n
  cases c with
  | evaluate e expr => exact (h.evaluate hc.1 hc.2).map _
  | apply f args => exact (h.apply hc.1 hc.2).map _
  | statement e st => exact (h.one hc.1 hc.2).map _
  | block e body => exact (h.execute hc.1 hc.2).map _
  | exportedValue source name => exact (h.exported name hc).map _
  | runModule m => exact absurd hc id

end Pairing

/-- A computation that ends well does so part by part. -/
theorem Run.bind_eq_ok {α β : Type} {f : Run α} {k : α → Run β} {s s' : State} {b : β}
    (h : (f >>= k) s = .ok b s') : ∃ a s₁, f s = .ok a s₁ ∧ k a s₁ = .ok b s' := by
  have hbind : EStateM.bind f k s = .ok b s' := h
  unfold EStateM.bind at hbind
  cases hf : f s with
  | ok a s₁ =>
    rw [hf] at hbind
    exact ⟨a, s₁, rfl, hbind⟩
  | error x s₁ =>
    rw [hf] at hbind
    cases hbind

end Thicket
