import Thicket.Proofs.PairedHost
import Thicket.Run.Eval
/-!
# Whole runs in step

The one induction over the evaluator.  `Runs` adds to the laws of a pairing what it has to know about code, calls and
modules; then everything the evaluator does is in step (`upto`), for every fuel, whether it ends or stops short.

A module is run at a world of its own.  `Enters` says how that world is reached and how the run comes back from it, so a
pairing may keep track of which modules are being run.
-/
namespace Thicket

/-- The state in which the body of a module begins. -/
def State.started (s : State) (m : Module) : State :=
  { s with store := (s.store.newScope none).2, log := s.log.push (.moduleStarted m.name) }

def State.finished (s : State) (m : Module) (exports : Table Value) : State :=
  { s with log := s.log.push (.moduleFinished m.name exports.length) }

def State.kept (s : State) (m : Module) (exports : Table Value) : State :=
  { s.finished m exports with
    memo := Table.insert s.memo m.name exports
    log := (s.finished m exports).log.push (.exportsKept m.name (Table.names (Table.sorted exports))) }

theorem findModule?_name {modules : List Module} {source : String} {m : Module}
    (h : findModule? modules source = some m) : m.name = source := by
  simpa using List.find?_some h

/-! ## Names that code declares -/

/-- The names that a statement declares in the scope in which it runs. -/
def Stmt.declared : Stmt → List String
  | .declare name | .function name _ _ => [name]
  | .importFrom _ names => names
  | .giveBack _ | .assign _ _ | .branch _ _ _ | .loop _ _ | .setField _ _ _ | .run _ | .other _ _ => []

/-- The names that the statements of a body declare in the scope in which it runs.  What stands inside one of them, in a
branch, a loop or a function, runs in a scope of its own. -/
def declaredIn (body : List Stmt) : List String := body.flatMap Stmt.declared

/-! ## What running a module comes to -/

def Outcome.result? : Outcome → Option Value
  | completed => none
  | returned v => some v

/-- The body of a module and then its exports, in a scope that is there already. -/
def runBody (p : Program) (n : Nat) (root : ScopeId) (m : Module) : Run (Outcome × Table Value) := do
  return (← execute p n root m.body, ← collectExports root m.exports [])

theorem runModule_eq (p : Program) (n : Nat) (m : Module) :
    runModule p (n + 1) m = (do
      Run.record (.moduleStarted m.name)
      let r ← runBody p n (← Run.onStore (·.newScope none)) m
      Run.record (.moduleFinished m.name r.2.length)
      return ⟨r.2, r.1.result?⟩) := by
  simp only [runModule, runBody, bind_assoc, pure_bind]
  rfl

theorem runModule_succ (p : Program) (n : Nat) (m : Module) (s : State) :
    runModule p (n + 1) m s =
      (runBody p n s.store.scopes.size m >>= fun r s' => .ok ⟨r.2, r.1.result?⟩ (s'.finished m r.2)) (s.started m) := by
  rw [runModule_eq]
  rfl

/-- Some run of the module that begins in `s` ends with these exports, having reached `s'`. -/
def Module.EndsIn (p : Program) (m : Module) (s : State) (exports : Table Value) (s' : State) : Prop :=
  ∃ n result, runModule p n m s = .ok ⟨exports, result⟩ (s'.finished m exports)

/-- Some run of the module that begins in `s` stops short in `s'`. -/
def Module.StopsIn (p : Program) (m : Module) (s : State) (x : Stop) (s' : State) : Prop :=
  ∃ n, runModule p n m s = .error x s'

theorem Run.bind_of_ok {α β : Type} {f : Run α} {s s' : State} {a : α} (h : f s = .ok a s') (k : α → Run β) :
    (f >>= k) s = k a s' := by
  show EStateM.bind f k s = _
  unfold EStateM.bind
  rw [h]

theorem Run.bind_of_error {α β : Type} {f : Run α} {s s' : State} {x : Stop} (h : f s = .error x s') (k : α → Run β) :
    (f >>= k) s = .error x s' := by
  show EStateM.bind f k s = _
  unfold EStateM.bind
  rw [h]

theorem endsIn_of_runBody {p : Program} {n : Nat} {m : Module} {s s' : State} {r : Outcome × Table Value}
    (h : runBody p n s.store.scopes.size m (s.started m) = .ok r s') : m.EndsIn p s r.2 s' :=
  ⟨n + 1, r.1.result?, (runModule_succ p n m s).trans (Run.bind_of_ok h _)⟩

theorem stopsIn_of_runBody {p : Program} {n : Nat} {m : Module} {s s' : State} {x : Stop}
    (h : runBody p n s.store.scopes.size m (s.started m) = .error x s') : m.StopsIn p s x s' :=
  ⟨n + 1, (runModule_succ p n m s).trans (Run.bind_of_error h _)⟩

theorem Run.get_bind {α : Type} (k : State → Run α) (s : State) : (get >>= k : Run α) s = k s s := rfl

theorem exportedValue_kept {p : Program} {n : Nat} {name : String} {m : Module} {s : State} {exports : Table Value}
    (hs : m.name ≠ nativeName) (hm : findModule? p.modules m.name = some m)
    (hk : Table.get? s.memo m.name = some exports) :
    exportedValue p (n + 1) m.name name s = pickExport m.name name exports s := by
  rw [exportedValue, if_neg hs, hm]
  simp only [Run.get_bind, hk]

theorem exportedValue_unkept {p : Program} {n : Nat} {name : String} {m : Module} {s : State}
    (hs : m.name ≠ nativeName) (hm : findModule? p.modules m.name = some m) (hk : Table.get? s.memo m.name = none) :
    exportedValue p (n + 1) m.name name s = (do
      let finished ← runModule p n m
      modify fun s => { s with memo := Table.insert s.memo m.name finished.exports }
      Run.record (.exportsKept m.name (Table.names (Table.sorted finished.exports)))
      pickExport m.name name finished.exports : Run Value) s := by
  rw [exportedValue, if_neg hs, hm]
  simp only [Run.get_bind, hk]

theorem exportedValue_run {p : Program} {n : Nat} {name : String} {m : Module} {s : State}
    (hs : m.name ≠ nativeName) (hm : findModule? p.modules m.name = some m) (hk : Table.get? s.memo m.name = none) :
    exportedValue p (n + 2) m.name name s =
      (runBody p n s.store.scopes.size m >>= fun r s' => pickExport m.name name r.2 (s'.kept m r.2)) (s.started m) := by
  rw [exportedValue_unkept hs hm hk]
  simp only [runModule_eq, bind_assoc, pure_bind]
  rfl

/-- These may be the exports of a module: exactly the names that it says it exports. -/
def Module.Offers (m : Module) (exports : Table Value) : Prop := ∀ name, name ∈ Table.names exports ↔ name ∈ m.exports

namespace Pairing

variable {P : Pairing} {p q : Program} {n : Nat} {w : P.World}

def FineOutcome (P : Pairing) (w : P.World) : Outcome → Prop
  | .completed => True
  | .returned v => P.Fine w v

theorem Room.cons {e : ScopeId} {st : Stmt} {rest : List Stmt} (h : P.Room w e (declaredIn (st :: rest))) :
    P.Room w e st.declared ∧ P.Room w e (declaredIn rest) :=
  ⟨⟨h.1, fun name hname => h.2 name (List.mem_append_left _ hname)⟩,
    h.1, fun name hname => h.2 name (List.mem_append_right _ hname)⟩

/-- The two runs may come upon any of these labels. -/
def MayMeetAll (P : Pairing) (labels : List Label) : Prop := ∀ x ∈ labels, P.MayMeet x

/-- Some statement that may run imports from `source`. -/
def MayImport (P : Pairing) (w : P.World) (source : String) : Prop := ∃ names, P.Allowed w (.importFrom source names)

/-- From these states a module may be run.  Its body runs at a world of its own; what stops it there stops the run that
imported from it, and keeping its exports leads back to a later world of that run. -/
def Enters (P : Pairing) (p : Program) (w : P.World) (m : Module) (s t : State) : Prop :=
  ∃ w₁, P.Sim w₁ (s.started m) (t.started m) ∧ (∀ names, P.Room w₁ s.store.scopes.size names) ∧ P.Code w₁ m.body ∧
    (∀ x s' t', m.StopsIn p s x s' → P.Stopped w₁ x s' t' → P.Stopped w x s' t') ∧
    ∀ w₂ s' t' exports, m.EndsIn p s exports s' → P.Later w₁ w₂ → P.Sim w₂ s' t' → P.FineTable w₂ exports →
      m.Offers exports → ∃ w', P.Later w w' ∧ P.Sim w' (s'.kept m exports) (t'.kept m exports) ∧ P.FineTable w' exports

/-- What a pairing has to know about code, calls and modules. -/
structure Runs (P : Pairing) (p q : Program) : Prop extends P.Lawful where
  closure_runs : ∀ {w c}, P.Fine w (.closure c) → P.Here w c.scope ∧ P.Code w c.body
  closure_made : ∀ {w e name params body}, P.Here w e → P.Allowed w (.function name params body) →
    P.Fine w (.closure ⟨name, params, body, e⟩)
  branch : ∀ {w condition whenTrue whenFalse}, P.Allowed w (.branch condition whenTrue whenFalse) →
    P.Code w whenTrue ∧ P.Code w whenFalse
  loop : ∀ {w condition body}, P.Allowed w (.loop condition body) → P.Code w body
  labels : ∀ {w st}, P.Allowed w st → P.MayMeetAll st.labels
  call : ∀ {w f args}, P.Fine w (.native f) → P.FineAll w args → P.InStep w P.Fine (f.call args) (f.call args)
  native : ∀ w name, p.native? name = q.native? name ∧ ∀ f ∈ p.native? name, P.Fine w (.native f)
  memo : ∀ {w s t}, P.Sim w s t → s.memo = t.memo ∧ ∀ x ∈ s.memo, P.FineTable w x.2
  sameModule : ∀ {w source}, P.MayImport w source → source ≠ nativeName →
    findModule? p.modules source = findModule? q.modules source
  missing : ∀ {w source s t}, P.Sim w s t → P.MayImport w source → source ≠ nativeName →
    findModule? p.modules source = none → P.Stopped w (.failure (.noSuchModule source)) s t
  enters : ∀ {w m s t}, P.Sim w s t → P.MayImport w m.name → m.name ≠ nativeName →
    findModule? p.modules m.name = some m → Table.get? s.memo m.name = none → P.Enters p w m s t

/-- Everything that the evaluator does on fuel `n` is in step. -/
structure Upto (P : Pairing) (p q : Program) (n : Nat) : Prop where
  evaluate : ∀ {w e expr}, P.Here w e → P.MayMeetAll expr.labels →
    P.InStep w P.Fine (Thicket.evaluate p n e expr) (Thicket.evaluate q n e expr)
  fields : ∀ {w e fields done}, P.Here w e → P.MayMeetAll (fieldLabels fields) → P.FineTable w done →
    P.InStep w P.FineTable (evaluateFields p n e fields done) (evaluateFields q n e fields done)
  all : ∀ {w e exprs}, P.Here w e → P.MayMeetAll (exprLabels exprs) →
    P.InStep w P.FineAll (evaluateAll p n e exprs) (evaluateAll q n e exprs)
  apply : ∀ {w f args}, P.Fine w f → P.FineAll w args →
    P.InStep w P.Fine (Thicket.apply p n f args) (Thicket.apply q n f args)
  execute : ∀ {w e body}, P.Room w e (declaredIn body) → P.Code w body →
    P.InStep w P.FineOutcome (Thicket.execute p n e body) (Thicket.execute q n e body)
  one : ∀ {w e st}, P.Room w e st.declared → P.Allowed w st →
    P.InStep w P.FineOutcome (executeOne p n e st) (executeOne q n e st)
  loop : ∀ {w e condition body}, P.Here w e → P.MayMeetAll condition.labels → P.Code w body →
    P.InStep w P.FineOutcome (executeLoop p n e condition body) (executeLoop q n e condition body)
  importNames : ∀ {w e source} names, P.Room w e names → P.MayImport w source →
    P.InStep w (fun _ _ => True) (Thicket.importNames p n e source names) (Thicket.importNames q n e source names)
  exported : ∀ {w source} name, P.MayImport w source →
    P.InStep w P.Fine (exportedValue p n source name) (exportedValue q n source name)

namespace Runs

theorem code_mono (R : P.Runs p q) {w w' : P.World} {body : List Stmt} (hw : P.Later w w') (h : P.Code w body) :
    P.Code w' body :=
  fun st hst => R.allowed_mono hw (h st hst)

theorem fineTable_mono (R : P.Runs p q) {w w' : P.World} {t : Table Value} (hw : P.Later w w') (h : P.FineTable w t) :
    P.FineTable w' t :=
  fun x hx => R.fine_mono hw (h x hx)

theorem mayImport_mono (R : P.Runs p q) {w w' : P.World} {source : String} (hw : P.Later w w')
    (h : P.MayImport w source) : P.MayImport w' source :=
  let ⟨names, hn⟩ := h
  ⟨names, R.allowed_mono hw hn⟩

theorem define_inStep (R : P.Runs p q) {e : ScopeId} {v : Value} (name : String) (he : P.Here w e)
    (ho : P.Open w e name) (hv : P.Fine w v) :
    P.InStep w (fun _ _ => True) (Run.change (·.define e name v)) (Run.change (·.define e name v)) := by
  refine R.change_inStep (fun s t hst => R.bind name hst he (.inl ho) fun u hu => ?_) trivial
  rw [Option.mem_some_iff] at hu
  exact hu ▸ hv

theorem childScope_inStep (R : P.Runs p q) {e : ScopeId} (he : P.Here w e) :
    P.InStep w (fun w a => ∀ names, P.Room w a names) (Run.onStore (·.newScope (some e)))
      (Run.onStore (·.newScope (some e))) := by
  refine R.newScope_inStep fun a ha => ?_
  rw [Option.mem_some_iff] at ha
  exact ha ▸ he

/-! ## Expressions -/

theorem evaluate_succ (R : P.Runs p q) (h : P.Upto p q n) {e : ScopeId} {expr : Expr} (he : P.Here w e)
    (hexpr : P.MayMeetAll expr.labels) :
    P.InStep w P.Fine (evaluate p (n + 1) e expr) (evaluate q (n + 1) e expr) := by
  cases expr with
  | number x => exact R.pure_inStep (R.fine_number w x)
  | boolean b => exact R.pure_inStep (R.fine_boolean w b)
  | string s => exact R.pure_inStep (R.fine_string w s)
  | null => exact R.pure_inStep (R.fine_null w)
  | object fields =>
    rw [Expr.labels] at hexpr
    simp only [evaluate]
    refine R.bind_inStep (h.fields he hexpr fun _ hx => by cases hx) fun w₁ values _ hvalues => ?_
    exact R.bind_inStep (R.newObject_inStep hvalues) fun w₂ o _ ho => R.pure_inStep ho
  | ref name => exact R.valueOf_inStep name he
  | get target field =>
    rw [Expr.labels] at hexpr
    simp only [evaluate]
    refine R.bind_inStep (h.evaluate he hexpr) fun w₁ v _ hv => ?_
    refine R.bind_inStep (R.object_inStep hv) fun w₂ o _ ho => R.ask_inStep fun s t hst => ?_
    obtain ⟨heq, hfine⟩ := R.fields hst ho
    rw [← heq]
    refine ⟨rfl, ?_⟩
    cases hg : Table.get? (s.store.fields o) field with
    | none => exact R.fine_null w₂
    | some u => exact hfine (field, u) (Table.mem_of_get? hg)
  | binary op left right =>
    rw [Expr.labels, MayMeetAll, List.forall_mem_cons, List.forall_mem_append] at hexpr
    obtain ⟨hop, hleft, hright⟩ := hexpr
    simp only [evaluate]
    refine R.bind_inStep (h.evaluate he hleft) fun w₁ l hw₁ hl => ?_
    refine R.bind_inStep (h.evaluate (R.here_mono hw₁ he) hright) fun w₂ r hw₂ hr => ?_
    exact R.binary_inStep hop (R.fine_mono hw₂ hl) hr
  | unary op operand =>
    rw [Expr.labels, MayMeetAll, List.forall_mem_cons] at hexpr
    simp only [evaluate]
    exact R.bind_inStep (h.evaluate he hexpr.2) fun w₁ v _ _ => R.unary_inStep hexpr.1 v
  | call callee args =>
    rw [Expr.labels, MayMeetAll, List.forall_mem_append] at hexpr
    simp only [evaluate]
    refine R.bind_inStep (h.evaluate he hexpr.1) fun w₁ f hw₁ hf => ?_
    refine R.bind_inStep (h.all (R.here_mono hw₁ he) hexpr.2) fun w₂ values hw₂ hvalues => ?_
    exact h.apply (R.fine_mono hw₂ hf) hvalues
  | other kind _ =>
    have hkind : P.MayMeet (.kind kind) := hexpr _ List.mem_cons_self
    exact fun s t hst => .stopped (hkind.resolve_left id hst)

theorem fields_succ (R : P.Runs p q) (h : P.Upto p q n) {e : ScopeId} {fields : List (String × Expr)}
    {done : Table Value} (he : P.Here w e) (hfields : P.MayMeetAll (fieldLabels fields)) (hdone : P.FineTable w done) :
    P.InStep w P.FineTable (evaluateFields p (n + 1) e fields done) (evaluateFields q (n + 1) e fields done) := by
  match fields, hfields with
  | [], _ => exact R.pure_inStep hdone
  | (name, expr) :: rest, hfields =>
    rw [fieldLabels, MayMeetAll, List.forall_mem_append] at hfields
    simp only [evaluateFields]
    refine R.bind_inStep (h.evaluate he hfields.1) fun w₁ v hw hv => ?_
    exact h.fields (R.here_mono hw he) hfields.2 ((R.fineTable_mono hw hdone).insert name hv)

theorem all_succ (R : P.Runs p q) (h : P.Upto p q n) {e : ScopeId} {exprs : List Expr} (he : P.Here w e)
    (hexprs : P.MayMeetAll (exprLabels exprs)) :
    P.InStep w P.FineAll (evaluateAll p (n + 1) e exprs) (evaluateAll q (n + 1) e exprs) := by
  match exprs, hexprs with
  | [], _ =>
    have hnone : P.FineAll w [] := fun _ hv => by cases hv
    exact R.pure_inStep hnone
  | expr :: rest, hexprs =>
    rw [exprLabels, MayMeetAll, List.forall_mem_append] at hexprs
    simp only [evaluateAll]
    refine R.bind_inStep (h.evaluate he hexprs.1) fun w₁ v hw₁ hv => ?_
    refine R.bind_inStep (h.all (R.here_mono hw₁ he) hexprs.2) fun w₂ vs hw₂ hvs => ?_
    refine R.pure_inStep fun u hu => ?_
    rcases List.mem_cons.1 hu with rfl | hu
    · exact R.fine_mono hw₂ hv
    · exact hvs u hu

/-! ## Calls -/

theorem bindParams_sim (R : P.Runs p q) {e : ScopeId} : ∀ (pairs : List (String × Value)) {s t : State},
    P.Sim w s t → (∀ names, P.Room w e names) → (∀ x ∈ pairs, P.Fine w x.2) →
    P.Sim w (s.on fun st => pairs.foldl (fun st x => st.define e x.1 x.2) st)
      (t.on fun st => pairs.foldl (fun st x => st.define e x.1 x.2) st)
  | [], _, _, hst, _, _ => hst
  | x :: rest, s, t, hst, he, hfine => by
    obtain ⟨hhere, hopen⟩ := he [x.1]
    have hx := R.bind (b := some x.2) x.1 hst hhere (.inl (hopen x.1 List.mem_cons_self)) fun u hu => by
      rw [Option.mem_some_iff] at hu
      exact hu ▸ hfine x List.mem_cons_self
    exact R.bindParams_sim rest hx he fun y hy => hfine y (List.mem_cons_of_mem x hy)

theorem apply_succ (R : P.Runs p q) (h : P.Upto p q n) {f : Value} {args : List Value} (hf : P.Fine w f)
    (hargs : P.FineAll w args) : P.InStep w P.Fine (apply p (n + 1) f args) (apply q (n + 1) f args) := by
  cases f with
  | closure c =>
    obtain ⟨hscope, hbody⟩ := R.closure_runs hf
    simp only [apply]
    split
    · exact R.fail_inStep trivial
    · refine R.bind_inStep (R.childScope_inStep hscope) fun w₁ e hw₁ he => ?_
      refine R.bind_inStep (R.change_inStep (G := fun _ _ => True) (fun s t hst => ?_) trivial) fun w₂ _ hw₂ _ => ?_
      · exact R.bindParams_sim _ hst he fun x hx => R.fine_mono hw₁ (hargs x.2 (List.of_mem_zip hx).2)
      refine R.bind_inStep (h.execute ((he _).mono R.toLawful hw₂) (R.code_mono (R.later_trans hw₁ hw₂) hbody))
        fun w₃ outcome _ ho => R.pure_inStep ?_
      cases outcome with
      | completed => exact R.fine_null w₃
      | returned v => exact ho
  | native f => exact R.call hf hargs
  | number _ | boolean _ | string _ | null | object _ => exact R.fail_inStep trivial

/-! ## Statements -/

theorem execute_succ (R : P.Runs p q) (h : P.Upto p q n) {e : ScopeId} {body : List Stmt}
    (he : P.Room w e (declaredIn body)) (hbody : P.Code w body) :
    P.InStep w P.FineOutcome (execute p (n + 1) e body) (execute q (n + 1) e body) := by
  match body, he, hbody with
  | [], _, _ => exact R.pure_inStep trivial
  | st :: rest, he, hbody =>
    obtain ⟨hfirst, hrest⟩ := he.cons
    simp only [execute]
    refine R.bind_inStep (h.one hfirst (hbody st List.mem_cons_self)) fun w₁ outcome hw ho => ?_
    cases outcome with
    | completed =>
      exact h.execute (hrest.mono R.toLawful hw) (R.code_mono hw fun u hu => hbody u (List.mem_cons_of_mem st hu))
    | returned v => exact R.pure_inStep ho

theorem loop_succ (R : P.Runs p q) (h : P.Upto p q n) {e : ScopeId} {condition : Expr} {body : List Stmt}
    (he : P.Here w e) (hcondition : P.MayMeetAll condition.labels) (hbody : P.Code w body) :
    P.InStep w P.FineOutcome (executeLoop p (n + 1) e condition body) (executeLoop q (n + 1) e condition body) := by
  simp only [executeLoop]
  refine R.bind_inStep (h.evaluate he hcondition) fun w₁ v hw₁ _ => ?_
  refine R.bind_inStep (R.condition_inStep v) fun w₂ b hw₂ _ => ?_
  have hw := R.later_trans hw₁ hw₂
  cases b with
  | false => exact R.pure_inStep trivial
  | true =>
    simp only [if_true]
    refine R.bind_inStep (R.childScope_inStep (R.here_mono hw he)) fun w₃ inner hw₃ hinner => ?_
    have hw := R.later_trans hw hw₃
    refine R.bind_inStep (h.execute (hinner _) (R.code_mono hw hbody)) fun w₄ outcome hw₄ ho => ?_
    have hw := R.later_trans hw hw₄
    cases outcome with
    | completed => exact h.loop (R.here_mono hw he) hcondition (R.code_mono hw hbody)
    | returned u => exact R.pure_inStep ho

theorem one_succ (R : P.Runs p q) (h : P.Upto p q n) {e : ScopeId} {st : Stmt} (hroom : P.Room w e st.declared)
    (hst : P.Allowed w st) :
    P.InStep w P.FineOutcome (executeOne p (n + 1) e st) (executeOne q (n + 1) e st) := by
  have he := hroom.1
  have hlabels := R.labels hst
  cases st with
  | run expr =>
    rw [Stmt.labels] at hlabels
    simp only [executeOne]
    exact R.bind_inStep (h.evaluate he hlabels) fun w₁ v _ _ => R.pure_inStep trivial
  | giveBack value =>
    cases value with
    | none => exact R.pure_inStep (R.fine_null w)
    | some expr =>
      rw [Stmt.labels] at hlabels
      simp only [executeOne]
      exact R.bind_inStep (h.evaluate he hlabels) fun w₁ v _ hv => R.pure_inStep hv
  | declare name =>
    simp only [executeOne]
    refine R.bind_inStep (R.change_inStep (G := fun _ _ => True) (fun s t hst => ?_) trivial) fun w₁ _ _ _ =>
      R.pure_inStep trivial
    exact R.bind name hst he (.inl (hroom.2 name List.mem_cons_self)) fun _ hv => by cases hv
  | assign name expr =>
    rw [Stmt.labels] at hlabels
    simp only [executeOne]
    refine R.bind_inStep (h.evaluate he hlabels) fun w₁ v hw hv => ?_
    exact R.bind_inStep (R.assign_inStep name (R.here_mono hw he) hv) fun w₂ _ _ _ => R.pure_inStep trivial
  | function name params body =>
    simp only [executeOne]
    exact R.bind_inStep (R.define_inStep name he (hroom.2 name List.mem_cons_self) (R.closure_made he hst))
      fun w₁ _ _ _ => R.pure_inStep trivial
  | branch condition whenTrue whenFalse =>
    obtain ⟨htrue, hfalse⟩ := R.branch hst
    rw [Stmt.labels, MayMeetAll, List.forall_mem_append] at hlabels
    simp only [executeOne]
    refine R.bind_inStep (h.evaluate he hlabels.1) fun w₁ v hw₁ _ => ?_
    refine R.bind_inStep (R.condition_inStep v) fun w₂ b hw₂ _ => ?_
    have hw := R.later_trans hw₁ hw₂
    refine R.bind_inStep (R.childScope_inStep (R.here_mono hw he)) fun w₃ inner hw₃ hinner => ?_
    refine h.execute (hinner _) (R.code_mono (R.later_trans hw hw₃) ?_)
    cases b with
    | true => exact htrue
    | false => exact hfalse
  | loop condition body =>
    rw [Stmt.labels, MayMeetAll, List.forall_mem_append] at hlabels
    exact h.loop he hlabels.1 (R.loop hst)
  | setField target field expr =>
    rw [Stmt.labels, MayMeetAll, List.forall_mem_append] at hlabels
    simp only [executeOne]
    refine R.bind_inStep (h.evaluate he hlabels.1) fun w₁ t hw₁ ht => ?_
    refine R.bind_inStep (h.evaluate (R.here_mono hw₁ he) hlabels.2) fun w₂ v hw₂ hv => ?_
    refine R.bind_inStep (R.object_inStep (R.fine_mono hw₂ ht)) fun w₃ o hw₃ ho => ?_
    refine R.bind_inStep (R.change_inStep (G := fun _ _ => True) (fun s t hst => ?_) trivial) fun w₄ _ _ _ =>
      R.pure_inStep trivial
    exact R.setField field hst ho (R.fine_mono hw₃ hv)
  | importFrom source names =>
    simp only [executeOne]
    exact R.bind_inStep (h.importNames names hroom ⟨names, hst⟩) fun w₁ _ _ _ => R.pure_inStep trivial
  | other kind _ =>
    have hkind : P.MayMeet (.kind kind) := hlabels _ List.mem_cons_self
    exact fun s t hst => .stopped (hkind.resolve_left id hst)

/-! ## Imports -/

theorem importNames_succ (R : P.Runs p q) (h : P.Upto p q n) {e : ScopeId} {source : String} (names : List String)
    (he : P.Room w e names) (hs : P.MayImport w source) :
    P.InStep w (fun _ _ => True) (importNames p (n + 1) e source names) (importNames q (n + 1) e source names) := by
  match names, he with
  | [], _ => exact R.pure_inStep trivial
  | name :: rest, he =>
    simp only [importNames]
    refine R.bind_inStep (h.exported name hs) fun w₁ v hw₁ hv => ?_
    have he₁ := he.mono R.toLawful hw₁
    refine R.bind_inStep (R.define_inStep name he₁.1 (he₁.2 name List.mem_cons_self) hv) fun w₂ _ hw₂ _ => ?_
    refine h.importNames rest ⟨R.here_mono hw₂ he₁.1, fun x hx => ?_⟩ (R.mayImport_mono (R.later_trans hw₁ hw₂) hs)
    exact R.open_mono hw₂ (he₁.2 x (List.mem_cons_of_mem name hx))

theorem pickExport_inStep (R : P.Runs p q) {exports : Table Value} (source name : String)
    (h : P.FineTable w exports) :
    P.InStep w P.Fine (pickExport source name exports) (pickExport source name exports) := by
  unfold pickExport
  cases hg : Table.get? exports name with
  | none => exact R.fail_inStep trivial
  | some v => exact R.pure_inStep (h (name, v) (Table.mem_of_get? hg))

theorem collectExports_inStep (R : P.Runs p q) {root : ScopeId} :
    ∀ (names : List String) {w : P.World} {done : Table Value},
    P.Here w root → P.FineTable w done →
    P.InStep w (fun w exports => P.FineTable w exports ∧
        ∀ x, x ∈ Table.names exports ↔ x ∈ Table.names done ∨ x ∈ names)
      (collectExports root names done) (collectExports root names done)
  | [], _, _, _, hdone => R.pure_inStep ⟨hdone, fun x => by simp⟩
  | name :: rest, w, done, hroot, hdone => by
    unfold collectExports
    refine R.bind_inStep (G := fun w b => ∀ b' ∈ b, ∀ v ∈ b', P.Fine w v) (R.ask_inStep fun s t hst => ?_)
      fun w₁ b hw hb => ?_
    · obtain ⟨heq, hfine⟩ := R.bindings hst hroot
      rw [← heq]
      exact ⟨rfl, fun b hb => hfine (name, b) (Table.mem_of_get? hb)⟩
    · match b, hb with
      | none, _ => exact R.fail_inStep trivial
      | some none, _ => exact R.fail_inStep trivial
      | some (some v), hb =>
        have hmem : ∀ x, (x ∈ Table.names (Table.insert done name v) ∨ x ∈ rest) ↔
            x ∈ Table.names done ∨ x ∈ name :: rest := fun x => by
          rw [Table.mem_names_insert, List.mem_cons, or_assoc]
        have hrest := R.collectExports_inStep rest (R.here_mono hw hroot)
          ((R.fineTable_mono hw hdone).insert name (hb _ rfl v rfl))
        simpa only [hmem] using hrest

theorem runBody_inStep (R : P.Runs p q) (h : P.Upto p q n) {m : Module} {root : ScopeId}
    (hroot : ∀ names, P.Room w root names) (hbody : P.Code w m.body) :
    P.InStep w (fun w r => P.FineOutcome w r.1 ∧ P.FineTable w r.2 ∧ m.Offers r.2) (runBody p n root m)
      (runBody q n root m) := by
  refine R.bind_inStep (h.execute (hroot _) hbody) fun w₁ outcome hw₁ ho => ?_
  refine R.bind_inStep (R.collectExports_inStep m.exports (R.here_mono hw₁ (hroot []).1) fun _ hx => by cases hx)
    fun w₂ exports hw₂ hexports => R.pure_inStep ⟨?_, hexports.1, fun x => ?_⟩
  rotate_left
  · rw [hexports.2]
    simp [Table.names]
  cases outcome with
  | completed => exact trivial
  | returned v => exact R.fine_mono hw₂ ho

/-- **A module that is not kept yet is run in step**, and then kept. -/
theorem exported_run (R : P.Runs p q) (h : P.Upto p q n) {m : Module} {s t : State} (name : String) (hst : P.Sim w s t)
    (himp : P.MayImport w m.name) (hs : m.name ≠ nativeName) (hm : findModule? p.modules m.name = some m)
    (hk : Table.get? s.memo m.name = none) :
    P.Ends w P.Fine (exportedValue p (n + 2) m.name name s) (exportedValue q (n + 2) m.name name t) := by
  have hm' : findModule? q.modules m.name = some m := R.sameModule himp hs ▸ hm
  have hk' : Table.get? t.memo m.name = none := (R.memo hst).1 ▸ hk
  obtain ⟨w₁, hstart, hroot, hbody, hstop, hback⟩ := R.enters hst himp hs hm hk
  rw [exportedValue_run hs hm hk, exportedValue_run hs hm' hk', ← R.scopes_size hst]
  refine (R.runBody_inStep h hroot hbody _ _ hstart).andThen
    (fun x s' t' hrun => hstop x s' t' (stopsIn_of_runBody hrun))
    fun w₂ r s' t' hrun hw₂ hst' hr => ?_
  obtain ⟨w', hw', hkept, hexports⟩ := hback w₂ s' t' r.2 (endsIn_of_runBody hrun) hw₂ hst' hr.2.1 hr.2.2
  exact (R.pickExport_inStep m.name name hexports _ _ hkept).mono R.toLawful hw'

theorem exported_succ (R : P.Runs p q) (h : ∀ k < n, P.Upto p q k) {source : String} (name : String)
    (himp : P.MayImport w source) :
    P.InStep w P.Fine (exportedValue p n source name) (exportedValue q n source name) := by
  cases n with
  | zero => exact R.throw_inStep trivial
  | succ n =>
    by_cases hs : source = nativeName
    · obtain ⟨heq, hfine⟩ := R.native w name
      simp only [exportedValue, if_pos hs, ← heq]
      cases hf : p.native? name with
      | none => exact R.fail_inStep trivial
      | some f => exact R.pure_inStep (hfine f hf)
    · have hsame := R.sameModule himp hs
      intro s t hst
      cases hm : findModule? p.modules source with
      | none =>
        simp only [exportedValue, if_neg hs, ← hsame, hm]
        exact .stopped (R.missing hst himp hs hm)
      | some m =>
        obtain rfl := findModule?_name hm
        obtain ⟨hmemo, hfine⟩ := R.memo hst
        cases hk : Table.get? s.memo m.name with
        | some exports =>
          rw [exportedValue_kept hs hm hk, exportedValue_kept hs (hsame ▸ hm) (hmemo ▸ hk)]
          exact R.pickExport_inStep m.name name (hfine (m.name, exports) (Table.mem_of_get? hk)) s t hst
        | none =>
          cases n with
          | zero =>
            rw [exportedValue_unkept hs hm hk, exportedValue_unkept hs (hsame ▸ hm) (hmemo ▸ hk)]
            exact .stopped (R.stop hst trivial)
          | succ n => exact R.exported_run (h n (by omega)) name hst himp hs hm hk

/-- **Everything that the evaluator does is in step**, on any fuel. -/
theorem upto (R : P.Runs p q) (n : Nat) : P.Upto p q n := by
  -- all fuel below, not only the next: an import that runs a module goes down by two at once
  induction n using Nat.strongRecOn with
  | _ n ih =>
    have hexported : ∀ {w source} name, P.MayImport w source →
        P.InStep w P.Fine (exportedValue p n source name) (exportedValue q n source name) :=
      fun name himp => R.exported_succ ih name himp
    cases n with
    | zero =>
      have hend : Stop.Local .exhausted := trivial
      exact ⟨fun _ _ => R.throw_inStep hend, fun _ _ _ => R.throw_inStep hend, fun _ _ => R.throw_inStep hend,
        fun _ _ => R.throw_inStep hend, fun _ _ => R.throw_inStep hend, fun _ _ => R.throw_inStep hend,
        fun _ _ _ => R.throw_inStep hend, fun _ _ _ => R.throw_inStep hend, hexported⟩
    | succ n =>
      have h := ih n (Nat.lt_succ_self n)
      exact ⟨R.evaluate_succ h, R.fields_succ h, R.all_succ h, R.apply_succ h, R.execute_succ h, R.one_succ h,
        R.loop_succ h, R.importNames_succ h, hexported⟩

end Runs

/-- How a module may end that was begun in the states `s` and `t`: with its exports, somewhere before its end, or,
without any fuel, before it started. -/
inductive ModuleEnds (P : Pairing) (w : P.World) (m : Module) (s t : State) :
    EStateM.Result Stop State Finished → EStateM.Result Stop State Finished → Prop
  | finished {w' : P.World} {s' t' : State} {r : Finished} : P.Later w w' → P.Sim w' s' t' → P.FineTable w' r.exports →
      m.Offers r.exports → ModuleEnds P w m s t (.ok r (s'.finished m r.exports)) (.ok r (t'.finished m r.exports))
  | stopped {x : Stop} {s' t' : State} : P.Stopped w x s' t' → ModuleEnds P w m s t (.error x s') (.error x t')
  | unstarted : ModuleEnds P w m s t (.error .exhausted s) (.error .exhausted t)

/-- **A module is run in step**, from where its body begins. -/
theorem Runs.runModule_ends (R : P.Runs p q) {m : Module} {s t : State} (hstart : P.Sim w (s.started m) (t.started m))
    (hroot : ∀ names, P.Room w s.store.scopes.size names) (hbody : P.Code w m.body) (n : Nat) :
    P.ModuleEnds w m s t (runModule p n m s) (runModule q n m t) := by
  cases n with
  | zero => exact .unstarted
  | succ n =>
    have hsize : s.store.scopes.size = t.store.scopes.size := by
      simpa [State.started, Store.newScope] using R.scopes_size hstart
    have hrun := R.runBody_inStep (R.upto n) hroot hbody _ _ hstart
    rw [runModule_succ, runModule_succ, ← hsize]
    show P.ModuleEnds w m s t (EStateM.bind (runBody p n s.store.scopes.size m) _ (s.started m))
      (EStateM.bind (runBody q n s.store.scopes.size m) _ (t.started m))
    unfold EStateM.bind
    generalize runBody p n s.store.scopes.size m (s.started m) = r at hrun
    generalize runBody q n s.store.scopes.size m (t.started m) = r' at hrun
    cases hrun with
    | done hw hst hr => exact .finished hw hst hr.2.1 hr.2.2
    | stopped hx => exact .stopped hx

end Pairing
end Thicket
