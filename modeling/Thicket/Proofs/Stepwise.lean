import Thicket.Proofs.Wholeness
/-!
# What one job does

Between its parts a job makes a scope, binds a name or writes a field: all that is different then is the store.  When
its parts are done, a module that is run may have it put on record that it has finished, and an import may keep exports.
So from the state in which a job is begun to the one it leaves there is a way (`Way`) by its parts: one case for each
kind of expression, statement and job (`done_by_parts`).  Only a function of the host has no parts and may do something
else.

The same way is gone by a job that is begun in a whole state and given what is there.  Then so are all its parts, and
nothing gets lost.  What depends on that is said under an assumption `W`.
-/
namespace Thicket

variable {N : NativeFunction → Prop}

/-! ## How a computation ended -/

/-- Why a computation stopped short, if it did, and the state that it left. -/
def endOf {α : Type} (r : EStateM.Result Stop State α) : Option Stop × State := (stopOf r, stateOf r)

theorem endOf_map {α β : Type} (g : α → β) (f : Run α) (s : State) : endOf ((g <$> f) s) = endOf (f s) := by
  show endOf (EStateM.map g f s) = endOf (f s)
  unfold EStateM.map
  cases f s <;> rfl

theorem Run.map_of_ok {α β : Type} {f : Run α} {s s' : State} {a : α} (h : f s = .ok a s') (g : α → β) :
    (g <$> f) s = .ok (g a) s' := by
  show EStateM.map g f s = _
  unfold EStateM.map
  rw [h]

theorem stateOf_bind_of_still {α β : Type} {f : Run α} {k : α → Run β} (hk : ∀ a s, stateOf (k a s) = s) (s : State) :
    stateOf ((f >>= k) s) = stateOf (f s) := by
  cases hf : f s with
  | ok a s' => rw [Run.bind_of_ok hf, hk]; rfl
  | error x s' => rw [Run.bind_of_error hf]; rfl

/-! ## What leaves all but the store alone -/

/-- The second state differs from the first in the store at most. -/
def State.Still (s s' : State) : Prop := ∃ store, s' = { s with store := store }

namespace State.Still

variable {s s' s'' : State}

theorem refl (s : State) : s.Still s := ⟨s.store, rfl⟩

theorem of_eq (h : s' = s) : s.Still s' := h ▸ refl s

theorem trans (h : s.Still s') (h' : s'.Still s'') : s.Still s'' := by
  obtain ⟨store, rfl⟩ := h
  obtain ⟨store', rfl⟩ := h'
  exact ⟨store', rfl⟩

theorem on (s : State) (f : Store → Store) : s.Still (s.on f) := ⟨f s.store, rfl⟩

end State.Still

theorem stateOf_consult {α : Type} (f : Store → Except Stop α) (s : State) : stateOf (Run.consult f s) = s := by
  unfold Run.consult
  cases f s.store <;> rfl

theorem stateOf_ofExcept {α : Type} (r : Except Stop α) (s : State) : stateOf (Run.ofExcept r s) = s := by
  cases r <;> rfl

theorem still_valueOf (e : ScopeId) (name : String) (s : State) : s.Still (stateOf (Run.valueOf e name s)) := by
  refine .of_eq ?_
  unfold Run.valueOf
  rw [Run.bind_of_ok (f := Run.ask _) rfl]
  rcases s.store.lookup e name with _ | _ | v <;> rfl

theorem still_assign (e : ScopeId) (name : String) (v : Value) (s : State) :
    s.Still (stateOf (Run.assign e name v s)) := by
  unfold Run.assign
  rw [Run.bind_of_ok (f := Run.onStore _) rfl]
  cases (s.store.assign e name v).1 <;> exact .on s fun store => (store.assign e name v).2

theorem stateOf_pickExport (source name : String) (exports : Table Value) (s : State) :
    stateOf (pickExport source name exports s) = s := by
  unfold pickExport
  cases Table.get? exports name <;> rfl

theorem stateOf_collectExports (root : ScopeId) (s : State) : ∀ (names : List String) (done : Table Value),
    stateOf (collectExports root names done s) = s
  | [], _ => rfl
  | name :: rest, done => by
    unfold collectExports
    rw [Run.bind_of_ok (f := Run.ask _) rfl]
    cases Table.get? (s.store.bindings root) name with
    | none => rfl
    | some b =>
      cases b with
      | none => rfl
      | some v => exact stateOf_collectExports root s rest _

/-! ## From part to part -/

/-- What a job does between two of its parts. -/
structure Gap (N : NativeFunction → Prop) (W : Prop) (s s' : State) : Prop where
  still : s.Still s'
  onward : W → Onward N s s'

theorem Gap.refl {W : Prop} {s : State} (h : W → s.Whole N) : Gap N W s s := ⟨.refl s, fun w => .refl (h w)⟩

theorem Gap.of_eq {W : Prop} {s s' : State} (h : W → s.Whole N) (heq : s' = s) : Gap N W s s' := by
  rw [heq]
  exact .refl h

/-- From one state to the other by way of these jobs.  If one of them stops short, it is the last, and that is the
end. -/
inductive Way (N : NativeFunction → Prop) (p : Program) (n : Nat) (W : Prop) :
    State → List (Job × State) → Option Stop × State → Prop
  | done {s s' : State} {stop : Option Stop} : Gap N W s s' → Way N p n W s [] (stop, s')
  | through {s s₁ s₂ : State} {j : Job} {rest : List (Job × State)} {r : Option Stop × State} : Gap N W s s₁ →
      (W → j.Given N s₁.store) → endOf (j.run p n s₁) = (none, s₂) → Way N p n W s₂ rest r →
      Way N p n W s ((j, s₁) :: rest) r
  | broken {s s₁ s₂ : State} {j : Job} {x : Stop} : Gap N W s s₁ → (W → j.Given N s₁.store) →
      endOf (j.run p n s₁) = (some x, s₂) → Way N p n W s [(j, s₁)] (some x, s₂)

/-- The state after the exports of a module have been kept. -/
def State.remembered (s : State) (m : Module) (exports : Table Value) : State :=
  { s with
    memo := Table.insert s.memo m.name exports
    log := s.log.push (.exportsKept m.name (Table.names (Table.sorted exports))) }

namespace Job

/-- The state in which the first part of a job may begin. -/
def opened (s : State) : Job → State
  | runModule m => s.started m
  | _ => s

/-- The function of the host that is to be called. -/
def host? : Job → Option (NativeFunction × List Value)
  | apply (.native f) args => some (f, args)
  | _ => none

theorem eq_of_host? {j : Job} {call : NativeFunction × List Value} (h : j.host? = some call) :
    j = .apply (.native call.1) call.2 := by
  cases j with
  | apply f args =>
    cases f with
    | native f =>
      cases h
      rfl
    | _ => cases h
  | _ => cases h

theorem parts_of_host? {p : Program} {n : Nat} {s : State} {j : Job} {call : NativeFunction × List Value}
    (h : j.host? = some call) : j.parts p n s = [] := by
  rw [eq_of_host? h]
  rfl

end Job

/-- What a job may do when its parts, and all these jobs with them, are done. -/
inductive Closes (p : Program) : Begun → List Begun → State → State → Prop
  | still {x : Begun} {jobs : List Begun} {s s' : State} : s.Still s' → Closes p x jobs s s'
  | finished {m : Module} {r : Finished} {n : Nat} {s s' : State} {jobs : List Begun} :
      runModule p (n + 1) m s = .ok r (s'.finished m r.exports) →
      Closes p ⟨.runModule m, s, n + 1⟩ jobs s' (s'.finished m r.exports)
  | kept {m : Module} {name : String} {r : Finished} {n : Nat} {s s' : State} {jobs : List Begun} :
      m.name ≠ nativeName → findModule? p.modules m.name = some m → Table.get? s.memo m.name = none →
      runModule p n m s = .ok r s' → ⟨.runModule m, s, n⟩ ∈ jobs →
      Closes p ⟨.exportedValue m.name name, s, n + 1⟩ jobs s' (s'.remembered m r.exports)

/-- How a job is done on fuel `n + 1`: its parts lead to `r`, and then it comes to its end. -/
structure Done (N : NativeFunction → Prop) (p : Program) (n : Nat) (W : Prop) (j : Job) (s : State)
    (r : Option Stop × State) : Prop where
  way : Way N p n W (j.opened s) (j.parts p n s) r
  closes : Closes p ⟨j, s, n + 1⟩ (j.course p (n + 1) s).tail r.2 (stateOf (j.run p (n + 1) s))
  onward : W → Onward N r.2 (stateOf (j.run p (n + 1) s))
  stops : ∀ x, r.1 = some x → endOf (j.run p (n + 1) s) = r

section Parts

variable {α β : Type} {p : Program} {n : Nat} {W : Prop} {s s₁ : State} {j : Job} {f : Run α} {g : α → List Value}
  {k : α → Run β} {e : ScopeId}

theorem Way.whole (H : W → HostedBy N p) {r : Option Stop × State} {parts : List (Job × State)}
    (h : Way N p n W s parts r) (w : W) :
    r.2.Whole N := by
  induction h with
  | done hgap => exact (hgap.onward w).whole
  | through _ _ _ _ ih => exact ih
  | @broken s s₁ s₂ j x hgap hj hend =>
    have honward := (Job.keeps (H w) n (hgap.onward w).whole (hj w)).onward
    rw [show stateOf (j.run p n s₁) = s₂ from congrArg Prod.snd hend] at honward
    exact honward.whole

/-- A job that has nothing of its own to do when its parts are done. -/
theorem Way.isDone (H : W → HostedBy N p) (h : Way N p n W (j.opened s) (j.parts p n s) (endOf (j.run p (n + 1) s))) :
    Done N p n W j s (endOf (j.run p (n + 1) s)) :=
  ⟨h, .still (.refl _), fun w => .refl (h.whole H w), fun _ _ => rfl⟩

theorem Job.onward (H : HostedBy N p) (hs : s.Whole N) (hj : j.Given N s.store) (hrun : j.run p n = g <$> f) :
    Onward N s (stateOf (f s)) := by
  have h := (Job.keeps H n hs hj).onward
  rwa [hrun, stateOf_map] at h

/-- A job, and what follows from its answer. -/
theorem Way.andThen {next : α → State → List (Job × State)} (H : W → HostedBy N p) (hs : Gap N W s s₁)
    (hj : W → j.Given N s₁.store)
    (hrun : j.run p n = g <$> f)
    (hk : ∀ a s₂, (W → Onward N s₁ s₂) → (W → ∀ v ∈ g a, v.ExistsIn N s₂.store) →
      Way N p n W s₂ (next a s₂) (endOf (k a s₂))) :
    Way N p n W s ((j, s₁) :: Job.after (f s₁) next) (endOf ((f >>= k) s₁)) := by
  have hgives := fun w => (Job.keeps (H w) n (hs.onward w).whole (hj w)).gives
  have honward := fun w => Job.onward (H w) (hs.onward w).whole (hj w) hrun
  have hend : endOf (j.run p n s₁) = endOf (f s₁) := by rw [hrun, endOf_map]
  rw [hrun] at hgives
  cases hf : f s₁ with
  | error x s₂ =>
    -- nothing is begun after a job that stops short
    rw [Run.bind_of_error hf]
    exact .broken hs hj (hend.trans (by rw [hf]; rfl))
  | ok a s₂ =>
    rw [hf] at honward
    rw [Run.bind_of_ok hf]
    refine .through hs hj (hend.trans (by rw [hf]; rfl)) (hk a s₂ honward fun w => ?_)
    exact hgives w _ s₂ (Run.map_of_ok hf g)

/-- The last job, and what is done with its answer. -/
theorem Way.last (H : W → HostedBy N p) (hs : Gap N W s s₁) (hj : W → j.Given N s₁.store) (hrun : j.run p n = g <$> f)
    (hk : ∀ a s₂, (W → Onward N s₁ s₂) → (W → ∀ v ∈ g a, v.ExistsIn N s₂.store) → Gap N W s₂ (stateOf (k a s₂))) :
    Way N p n W s [(j, s₁)] (endOf ((f >>= k) s₁)) := by
  have hnone : Job.after (f s₁) (fun _ _ => ([] : List (Job × State))) = [] := by cases f s₁ <;> rfl
  rw [← hnone]
  exact .andThen H hs hj hrun fun a s₂ hs₂ hv => .done (hk a s₂ hs₂ hv)

/-- The last job, with nothing left to do. -/
theorem Way.tail (H : W → HostedBy N p) (hs : Gap N W s s₁) (hj : W → j.Given N s₁.store) (hrun : j.run p n = g <$> f) :
    Way N p n W s [(j, s₁)] (endOf (f s₁)) := by
  have h := Way.last (k := pure) H hs hj hrun fun _ _ hs₂ _ => .refl fun w => (hs₂ w).whole
  rwa [bind_pure] at h

theorem way_expr (H : W → HostedBy N p) (hs : W → s.Whole N) (he : W → e < s.store.scopes.size) (expr : Expr) :
    Way N p n W s (Job.exprParts p n e s expr) (endOf (evaluate p (n + 1) e expr s)) := by
  have hend : W → Onward N s (stateOf (evaluate p (n + 1) e expr s)) :=
    fun w => Job.onward (H w) (j := .evaluate e expr) (hs w) (he w) rfl
  cases expr with
  | number _ | boolean _ | string _ | null | other _ _ => exact .done ⟨.refl s, hend⟩
  | ref name => exact .done ⟨still_valueOf e name s, hend⟩
  | object entries =>
    simp only [evaluate]
    refine .last H (.refl hs) (fun w => ⟨he w, fun _ hx => by cases hx⟩) rfl fun t s₁ h₁ ht => ⟨⟨_, rfl⟩, fun w => ?_⟩
    have hfields : ∀ x ∈ t, x.2.ExistsIn N s₁.store := fun x hx => ht w x.2 (List.mem_map_of_mem hx)
    exact ⟨(h₁ w).whole.newObject hfields, .newObject s₁.store t⟩
  | get target field =>
    simp only [evaluate]
    refine .last H (.refl hs) he rfl fun v s₁ h₁ _ => .of_eq (fun w => (h₁ w).whole) ?_
    cases v <;> rfl
  | binary op left right =>
    simp only [evaluate]
    refine .andThen H (.refl hs) he rfl fun l s₁ h₁ _ => ?_
    exact .last H (.refl fun w => (h₁ w).whole) (fun w => (h₁ w).grown.lt_size (he w)) rfl fun r s₂ h₂ _ =>
      .of_eq (fun w => (h₂ w).whole) (stateOf_consult _ s₂)
  | unary op operand =>
    simp only [evaluate]
    exact .last H (.refl hs) he rfl fun v s₁ h₁ _ => .of_eq (fun w => (h₁ w).whole) (stateOf_ofExcept _ s₁)
  | call callee args =>
    simp only [evaluate]
    refine .andThen H (.refl hs) he rfl fun v s₁ h₁ hv => ?_
    refine .andThen H (.refl fun w => (h₁ w).whole) (fun w => (h₁ w).grown.lt_size (he w)) (id_map _).symm
      fun values s₂ h₂ hvalues => ?_
    exact .tail H (.refl fun w => (h₂ w).whole)
      (fun w => ⟨(hv w v List.mem_cons_self).later (h₂ w).grown, hvalues w⟩) rfl

theorem onward_inside (hs : s.Whole N) (he : e < s.store.scopes.size) : Onward N s (s.inside e) where
  whole := hs.newScope fun a ha => by cases ha; exact he
  grown := .newScope s.store (some e)

theorem size_lt_inside (s : State) (e : ScopeId) : s.store.scopes.size < (s.inside e).store.scopes.size := by
  simp [State.inside, State.on, Store.newScope]

theorem onward_define {v : Value} (hs : s.Whole N) (e : ScopeId) (name : String) (hv : v.ExistsIn N s.store) :
    Onward N s (s.on (·.define e name v)) where
  whole := hs.bind e name fun u hu => by cases hu; exact hv
  grown := .bind s.store e name (some v)

theorem onward_bindParams (e : ScopeId) : ∀ (pairs : List (String × Value)) {s : State}, s.Whole N →
    (∀ x ∈ pairs, x.2.ExistsIn N s.store) → Onward N s (s.on fun st => pairs.foldl (fun st x => st.define e x.1 x.2) st)
  | [], _, hs, _ => .refl hs
  | x :: rest, s, hs, h => by
    have hx := onward_define hs e x.1 (h x List.mem_cons_self)
    exact hx.trans (onward_bindParams e rest hx.whole fun y hy => (h y (List.mem_cons_of_mem x hy)).later hx.grown)

theorem onward_called {c : Closure} {args : List Value} (hs : s.Whole N) (hc : c.scope < s.store.scopes.size)
    (hargs : ∀ v ∈ args, v.ExistsIn N s.store) : Onward N (s.inside c.scope) (s.called c args) := by
  have hinside := onward_inside hs hc
  refine onward_bindParams _ (c.params.zip args) hinside.whole fun x hx => ?_
  exact (hargs x.2 (List.of_mem_zip hx).2).later hinside.grown

theorem gap_inside (hs : W → s.Whole N) (he : W → e < s.store.scopes.size) : Gap N W s (s.inside e) :=
  ⟨.on s _, fun w => onward_inside (hs w) (he w)⟩

theorem way_loop (H : W → HostedBy N p) (hs : W → s.Whole N) (he : W → e < s.store.scopes.size)
    (condition : Expr) (body : List Stmt) :
    Way N p n W s (Job.loopParts p n e condition body s) (endOf (executeLoop p (n + 1) e condition body s)) := by
  simp only [executeLoop]
  refine .andThen H (.refl hs) he rfl fun v s₁ h₁ _ => ?_
  have he₁ : W → e < s₁.store.scopes.size := fun w => (h₁ w).grown.lt_size (he w)
  have hs₁ : W → s₁.Whole N := fun w => (h₁ w).whole
  cases v with
  | boolean b =>
    cases b with
    | false => exact .done (.refl hs₁)
    | true =>
      have hinside := gap_inside hs₁ he₁
      refine .andThen H hinside (fun _ => size_lt_inside s₁ e) rfl fun outcome s₂ h₂ _ => ?_
      cases outcome with
      | completed =>
        exact .tail H (.refl fun w => (h₂ w).whole)
          (fun w => (h₂ w).grown.lt_size ((hinside.onward w).grown.lt_size (he₁ w))) rfl
      | returned u => exact .done (.refl fun w => (h₂ w).whole)
  | number _ | object _ | string _ | null | closure _ | native _ => exact .done (.refl hs₁)

theorem way_stmt (H : W → HostedBy N p) (hs : W → s.Whole N) (he : W → e < s.store.scopes.size) (st : Stmt) :
    Way N p n W s (Job.stmtParts p n e s st) (endOf (executeOne p (n + 1) e st s)) := by
  have hend : W → Onward N s (stateOf (executeOne p (n + 1) e st s)) :=
    fun w => Job.onward (H w) (j := .one e st) (hs w) (he w) rfl
  cases st with
  | declare name => exact .done ⟨⟨_, rfl⟩, hend⟩
  | function name params body => exact .done ⟨⟨_, rfl⟩, hend⟩
  | other kind unknown => exact .done ⟨.refl s, hend⟩
  | giveBack value =>
    cases value with
    | none => exact .done ⟨.refl s, hend⟩
    | some expr =>
      simp only [executeOne]
      exact .last H (.refl hs) he rfl fun v s₁ h₁ _ => .refl fun w => (h₁ w).whole
  | run expr =>
    simp only [executeOne]
    exact .last H (.refl hs) he rfl fun v s₁ h₁ _ => .refl fun w => (h₁ w).whole
  | assign name expr =>
    simp only [executeOne]
    refine .last H (.refl hs) he rfl fun v s₁ h₁ hv => ?_
    rw [stateOf_bind_of_still fun _ _ => rfl]
    refine ⟨still_assign e name v s₁, fun w => ?_⟩
    have hassign := (wholeness_runs (H w)).assign_inStep name ((h₁ w).grown.lt_size (he w)) (hv w v List.mem_cons_self)
    exact (Keeps.of_inStep hassign (h₁ w).whole fun _ _ => trivial).onward
  | branch condition whenTrue whenFalse =>
    simp only [executeOne]
    refine .andThen H (.refl hs) he rfl fun v s₁ h₁ _ => ?_
    have hs₁ : W → s₁.Whole N := fun w => (h₁ w).whole
    cases v with
    | boolean b =>
      exact .tail H (gap_inside hs₁ fun w => (h₁ w).grown.lt_size (he w)) (fun _ => size_lt_inside s₁ e) rfl
    | number _ | object _ | string _ | null | closure _ | native _ => exact .done (.refl hs₁)
  | loop condition body =>
    simp only [executeOne]
    exact .tail H (.refl hs) he rfl
  | setField target field expr =>
    simp only [executeOne]
    refine .andThen H (.refl hs) he rfl fun t s₁ h₁ _ => ?_
    refine .last H (.refl fun w => (h₁ w).whole) (fun w => (h₁ w).grown.lt_size (he w)) rfl fun v s₂ h₂ hv => ?_
    cases t with
    | object o =>
      refine ⟨⟨_, rfl⟩, fun w => ?_⟩
      exact ⟨(h₂ w).whole.setField o field (hv w v List.mem_cons_self), .setField s₂.store o field v⟩
    | number _ | boolean _ | string _ | null | closure _ | native _ => exact .refl fun w => (h₂ w).whole
  | importFrom source names =>
    simp only [executeOne]
    exact .last H (.refl hs) he rfl fun _ s₁ h₁ _ => .refl fun w => (h₁ w).whole

theorem way_apply {f : Value} {args : List Value} (H : W → HostedBy N p) (hs : W → s.Whole N)
    (hf : W → f.ExistsIn N s.store)
    (hargs : W → ∀ v ∈ args, v.ExistsIn N s.store) (hhost : (Job.apply f args).host? = none) :
    Way N p n W s ((Job.apply f args).parts p n s) (endOf (apply p (n + 1) f args s)) := by
  cases f with
  | closure c =>
    by_cases harity : args.length = c.params.length
    · have hparts : (Job.apply (.closure c) args).parts p n s =
          [(.execute s.store.scopes.size c.body, s.called c args)] := if_neg (not_not_intro harity)
      have hrun : apply p (n + 1) (.closure c) args s =
          (execute p n s.store.scopes.size c.body >>= fun outcome => pure outcome.value) (s.called c args) := by
        rw [apply, if_neg (not_not_intro harity)]
        rfl
      have hcalled : W → Onward N (s.inside c.scope) (s.called c args) := fun w => onward_called (hs w) (hf w) (hargs w)
      have hgap : Gap N W s (s.called c args) :=
        ⟨(State.Still.on s _).trans (.on _ _), fun w => (onward_inside (hs w) (hf w)).trans (hcalled w)⟩
      rw [hparts, hrun]
      exact .last H hgap (fun w => (hcalled w).grown.lt_size (size_lt_inside s c.scope)) rfl
        fun outcome s₁ h₁ _ => .refl fun w => (h₁ w).whole
    · have hparts : (Job.apply (.closure c) args).parts p n s = [] := if_pos harity
      have hrun : apply p (n + 1) (.closure c) args s = Run.fail (.arityMismatch c.params.length args.length) s := by
        rw [apply, if_pos harity]
      rw [hparts, hrun]
      exact .done (.refl hs)
  | number _ | boolean _ | string _ | null | object _ => exact .done (.refl hs)
  | native f => cases hhost

theorem stateOf_exportedValue {m : Module} {r : Finished} {s' : State} (name : String)
    (hnative : m.name ≠ nativeName) (hm : findModule? p.modules m.name = some m) (hk : Table.get? s.memo m.name = none)
    (hr : runModule p n m s = .ok r s') :
    stateOf (exportedValue p (n + 1) m.name name s) = s'.remembered m r.exports := by
  rw [exportedValue_unkept hnative hm hk, Run.bind_of_ok hr]
  exact stateOf_pickExport m.name name r.exports _

theorem done_exportedValue (H : W → HostedBy N p) (hs : W → s.Whole N) (source name : String) :
    ∃ r, Done N p n W (.exportedValue source name) s r := by
  have hplain (hparts : Job.exportParts p source s = [])
      (hstill : s.Still (stateOf (exportedValue p (n + 1) source name s))) :
      ∃ r, Done N p n W (.exportedValue source name) s r := by
    refine ⟨_, Way.isDone H ?_⟩
    rw [Job.run, endOf_map]
    show Way N p n W s (Job.exportParts p source s) _
    rw [hparts]
    exact .done ⟨hstill, fun w => Job.onward (H w) (j := .exportedValue source name) (hs w) trivial rfl⟩
  by_cases hnative : source = nativeName
  · refine hplain (if_pos hnative) (.of_eq ?_)
    rw [exportedValue, if_pos hnative]
    cases p.native? name <;> rfl
  cases hm : findModule? p.modules source with
  | none =>
    refine hplain (by rw [Job.exportParts, if_neg hnative, hm]) (.of_eq ?_)
    rw [exportedValue, if_neg hnative, hm]
    rfl
  | some m =>
    obtain rfl := findModule?_name hm
    cases hk : Table.get? s.memo m.name with
    | some exports =>
      refine hplain (by rw [Job.exportParts, if_neg hnative, hm, hk]) (.of_eq ?_)
      rw [exportedValue_kept hnative hm hk, stateOf_pickExport]
    | none =>
      have hparts : (Job.exportedValue m.name name).parts p n s = [(.runModule m, s)] := by
        show Job.exportParts p m.name s = _
        rw [Job.exportParts, if_neg hnative, hm, hk]
      have hway : Way N p n W s [(.runModule m, s)] (endOf (runModule p n m s)) :=
        .tail H (.refl hs) (fun _ => trivial) rfl
      cases hr : runModule p n m s with
      | error x s₁ =>
        rw [hr] at hway
        have hstop : exportedValue p (n + 1) m.name name s = .error x s₁ := by
          rw [exportedValue_unkept hnative hm hk, Run.bind_of_error hr]
        refine ⟨_, hparts ▸ hway, ?_, ?_, ?_⟩ <;> rw [Job.run] <;> simp only [stateOf_map, endOf_map, hstop]
        · exact .still (.refl s₁)
        · exact fun w => .refl (hway.whole H w)
        · exact fun _ _ => rfl
      | ok r s₁ =>
        rw [hr] at hway
        have hend := stateOf_exportedValue name hnative hm hk hr
        have hbegun : ⟨.runModule m, s, n⟩ ∈ ((Job.exportedValue m.name name).course p (n + 1) s).tail := by
          rw [Job.course, hparts, List.tail_cons, List.flatMap_singleton]
          cases n with
          | zero => cases hr
          | succ n => exact List.mem_cons_self
        refine ⟨_, hparts ▸ hway, ?_, fun w => ?_, fun x hx => by cases hx⟩ <;> rw [Job.run, stateOf_map, hend]
        · exact .kept hnative hm hk hr hbegun
        · have hexports : ∀ x ∈ r.exports, x.2.ExistsIn N s₁.store := fun x hx =>
            (Job.keeps (H w) n (j := .runModule m) (hs w) trivial).gives _ s₁ (Run.map_of_ok hr _) x.2
              (List.mem_append_right _ (List.mem_map_of_mem hx))
          exact ⟨((hway.whole H w).memoize m.name hexports).aside rfl fun _ hx => hx, .refl s₁.store⟩

theorem done_runModule (H : W → HostedBy N p) (hs : W → s.Whole N) (m : Module) :
    ∃ r, Done N p n W (.runModule m) s r := by
  have hrun : runModule p (n + 1) m s = (do
      let outcome ← execute p n s.store.scopes.size m.body
      let exports ← collectExports s.store.scopes.size m.exports []
      Run.record (.moduleFinished m.name exports.length)
      return ⟨exports, outcome.result?⟩ : Run Finished) (s.started m) := by
    rw [runModule]
    rfl
  have hway : Way N p n W (s.started m) [(.execute s.store.scopes.size m.body, s.started m)]
      (endOf (execute p n s.store.scopes.size m.body (s.started m))) :=
    .tail H (.refl fun w => (hs w).started m) (fun _ => (room_started (N := N) s m []).1) rfl
  -- the body has ended: its exports may be missing, or the module is finished
  have hend : ∀ outcome s₁, execute p n s.store.scopes.size m.body (s.started m) = .ok outcome s₁ →
      (∃ x, runModule p (n + 1) m s = .error x s₁) ∨
        ∃ r, runModule p (n + 1) m s = .ok r (s₁.finished m r.exports) := by
    intro outcome s₁ hbody
    have hstill := stateOf_collectExports s.store.scopes.size s₁ m.exports []
    rw [hrun, Run.bind_of_ok hbody]
    cases hexports : collectExports s.store.scopes.size m.exports [] s₁ with
    | error x s₂ =>
      rw [hexports] at hstill
      obtain rfl : s₂ = s₁ := hstill
      exact .inl ⟨x, Run.bind_of_error hexports _⟩
    | ok exports s₂ =>
      rw [hexports] at hstill
      obtain rfl : s₂ = s₁ := hstill
      exact .inr ⟨⟨exports, outcome.result?⟩, Run.bind_of_ok hexports _⟩
  cases hbody : execute p n s.store.scopes.size m.body (s.started m) with
  | error x s₁ =>
    have hstop : runModule p (n + 1) m s = .error x s₁ := by rw [hrun, Run.bind_of_error hbody]
    rw [hbody] at hway
    refine ⟨_, hway, ?_, ?_, ?_⟩ <;> rw [Job.run] <;> simp only [stateOf_map, endOf_map, hstop]
    · exact .still (.refl s₁)
    · exact fun w => .refl (hway.whole H w)
    · exact fun _ _ => rfl
  | ok outcome s₁ =>
    rw [hbody] at hway
    have hnone : ∀ x, (endOf (EStateM.Result.ok (ε := Stop) outcome s₁)).1 ≠ some x := fun x hx => by cases hx
    refine ⟨_, hway, ?_, fun w => ?_, fun x hx => absurd hx (hnone x)⟩ <;> rw [Job.run, stateOf_map] <;>
      rcases hend outcome s₁ hbody with ⟨x, hx⟩ | ⟨r, hr⟩
    · rw [hx]
      exact .still (.refl s₁)
    · rw [hr]
      exact .finished hr
    · rw [hx]
      exact .refl (hway.whole H w)
    · rw [hr]
      exact .aside (hway.whole H w) rfl fun _ hx => hx

/-- **What a job does, it does by way of its parts**, unless it is one for the host. -/
theorem done_by_parts (H : W → HostedBy N p) (hs : W → s.Whole N) (hj : W → j.Given N s.store)
    (hhost : j.host? = none) :
    ∃ r, Done N p n W j s r := by
  cases j with
  | exportedValue source name => exact done_exportedValue H hs source name
  | runModule m => exact done_runModule H hs m
  | evaluate e expr =>
    refine ⟨_, Way.isDone H ?_⟩
    rw [Job.run, endOf_map]
    exact way_expr H hs hj expr
  | fields e rest done =>
    refine ⟨_, Way.isDone H ?_⟩
    rw [Job.run, endOf_map]
    cases rest with
    | nil => exact .done (.refl hs)
    | cons field rest =>
      simp only [evaluateFields]
      refine .andThen H (.refl hs) (fun w => (hj w).1) rfl fun v s₁ h₁ hv => ?_
      refine .tail H (.refl fun w => (h₁ w).whole) (fun w => ⟨(h₁ w).grown.lt_size (hj w).1, fun x hx => ?_⟩) rfl
      rcases Table.mem_insert hx with rfl | hx
      · exact hv w v List.mem_cons_self
      · exact ((hj w).2 x hx).later (h₁ w).grown
  | all e exprs =>
    refine ⟨_, Way.isDone H ?_⟩
    cases exprs with
    | nil => exact .done (.refl hs)
    | cons expr rest =>
      simp only [Job.run, evaluateAll]
      refine .andThen H (.refl hs) hj rfl fun v s₁ h₁ hv => ?_
      exact .last H (.refl fun w => (h₁ w).whole) (fun w => (h₁ w).grown.lt_size (hj w)) (id_map _).symm
        fun vs s₂ h₂ _ => .refl fun w => (h₂ w).whole
  | apply f args =>
    refine ⟨_, Way.isDone H ?_⟩
    rw [Job.run, endOf_map]
    exact way_apply H hs (fun w => (hj w).1) (fun w => (hj w).2) hhost
  | execute e body =>
    refine ⟨_, Way.isDone H ?_⟩
    rw [Job.run, endOf_map]
    cases body with
    | nil => exact .done (.refl hs)
    | cons st rest =>
      simp only [execute]
      refine .andThen H (.refl hs) hj rfl fun outcome s₁ h₁ _ => ?_
      have hs₁ : W → s₁.Whole N := fun w => (h₁ w).whole
      cases outcome with
      | completed => exact .tail H (.refl hs₁) (fun w => (h₁ w).grown.lt_size (hj w)) rfl
      | returned v => exact .done (.refl hs₁)
  | one e st =>
    refine ⟨_, Way.isDone H ?_⟩
    rw [Job.run, endOf_map]
    exact way_stmt H hs hj st
  | loop e condition body =>
    refine ⟨_, Way.isDone H ?_⟩
    rw [Job.run, endOf_map]
    exact way_loop H hs hj condition body
  | importNames e source names =>
    refine ⟨_, Way.isDone H ?_⟩
    rw [Job.run, endOf_map]
    cases names with
    | nil => exact .done (.refl hs)
    | cons name rest =>
      simp only [importNames]
      refine .andThen (j := .exportedValue source name) H (.refl hs) (fun _ => trivial) rfl fun v s₁ h₁ hv => ?_
      have hdefine : Gap N W s₁ (s₁.on (·.define e name v)) :=
        ⟨.on s₁ _, fun w => onward_define (h₁ w).whole e name (hv w v List.mem_cons_self)⟩
      exact .tail H hdefine (fun w => (hdefine.onward w).grown.lt_size ((h₁ w).grown.lt_size (hj w))) rfl

end Parts

end Thicket
