import Thicket.Proofs.Cycle
import Thicket.Proofs.Lockstep
import Thicket.Run.Program
/-!
# One run, watched

A run paired with itself: what is watched holds at every point of it.  A `Watch` looks at the kept exports and at the
log, the two things that say which modules have run, and at the code of every function in the store, since any of them
may be called at any time.  `Watch.Lawful.runModule_ended` follows the body of a module to its end, however it ends.

The run may also be watched beside that of another program: as long as the modules that may be imported from are the
same there, all but the log is the same (`Watch.Lawful.runs_beside`).

At the end of the module stands what a whole program does around its first module, as equations.
-/
namespace Thicket

/-! ## Every value in the store -/

structure Store.All (F : Value → Prop) (s : Store) : Prop where
  bindings : ∀ e, ∀ x ∈ s.bindings e, ∀ v ∈ x.2, F v
  fields : ∀ o, ∀ x ∈ s.fields o, F x.2

namespace Store.All

variable {F : Value → Prop} {s : Store}

theorem empty : Store.empty.All F := by
  constructor
  · intro e x hx
    simp [Store.bindings, Store.empty] at hx
  · intro o x hx
    simp [Store.fields, Store.empty] at hx

theorem bind (h : s.All F) (e : ScopeId) (name : String) {b : Binding} (hb : ∀ v ∈ b, F v) :
    (s.bind e name b).All F := by
  refine ⟨fun a x hx v hv => ?_, h.fields⟩
  rw [Store.bindings_bind] at hx
  split at hx
  · rcases Table.mem_insert hx with rfl | hx
    · exact hb v hv
    · exact h.bindings e x hx v hv
  · exact h.bindings a x hx v hv

theorem setField (h : s.All F) (o : ObjectId) (name : String) {v : Value} (hv : F v) : (s.setField o name v).All F := by
  refine ⟨h.bindings, fun a x hx => ?_⟩
  rw [Store.fields_setField] at hx
  split at hx
  · rcases Table.mem_insert hx with rfl | hx
    · exact hv
    · exact h.fields o x hx
  · exact h.fields a x hx

theorem newScope (h : s.All F) (parent : Option ScopeId) : (s.newScope parent).2.All F :=
  ⟨fun a x hx => by rw [Store.bindings_newScope] at hx; exact h.bindings a x hx, h.fields⟩

theorem newObject (h : s.All F) {fields : List (String × Value)} (hf : ∀ x ∈ fields, F x.2) :
    (s.newObject fields).2.All F := by
  refine ⟨h.bindings, fun a x hx => ?_⟩
  rw [Store.fields_newObject] at hx
  split at hx
  · exact hf x (Table.mem_of_mem_ofPairs hx)
  · exact h.fields a x hx

end Store.All

/-- If the value is a function of the program, its body satisfies `B`. -/
def Value.Runs (B : List Stmt → Prop) : Value → Prop
  | .closure c => B c.body
  | _ => True

/-- All but the log is the same. -/
def State.Beside (s t : State) : Prop := ∃ log, t = { s with log := log }

theorem State.Beside.refl (s : State) : s.Beside s := ⟨s.log, rfl⟩

/-! ## What is watched -/

/-- What is said about one run: of its kept exports and its log at every point, of the functions that may be called, of
the statements that may run, and of where it may stop short. -/
structure Watch where
  World : Type
  /-- A function of the program may have this body. -/
  Body : List Stmt → Prop
  Allowed : World → Stmt → Prop
  Holds : World → Table (Table Value) → Array Event → Prop
  Stopped : World → Stop → State → Prop

namespace Watch

variable {W : Watch} {p : Program}

structure At (W : Watch) (w : W.World) (s : State) : Prop where
  store : s.store.All (Value.Runs W.Body)
  memo : ∀ x ∈ s.memo, ∀ y ∈ x.2, Value.Runs W.Body y.2
  holds : W.Holds w s.memo s.log

theorem At.of_holds (hbody : ∀ body, W.Body body) {w : W.World} {s : State} (h : W.Holds w s.memo s.log) :
    W.At w s := by
  have hany : ∀ v : Value, v.Runs W.Body := by
    intro v
    cases v with
    | closure c => exact hbody c.body
    | number _ | boolean _ | object _ | string _ | null | native _ => exact trivial
  exact ⟨⟨fun _ _ _ v _ => hany v, fun _ x _ => hany x.2⟩, fun _ _ y _ => hany y.2, h⟩

/-- All functions that are there may be called. -/
def Clean (W : Watch) (s : State) : Prop :=
  s.store.All (Value.Runs W.Body) ∧ ∀ x ∈ s.memo, ∀ y ∈ x.2, Value.Runs W.Body y.2

theorem At.clean {w : W.World} {s : State} (h : W.At w s) : W.Clean s := ⟨h.store, h.memo⟩

def pairing (W : Watch) : Pairing where
  World := W.World
  Later := Eq
  Sim w s t := s.Beside t ∧ W.At w s
  Stopped w x s t := s.Beside t ∧ W.Clean s ∧ W.Stopped w x s
  Here _ _ := True
  Open _ _ _ := True
  Fine _ v := Value.Runs W.Body v
  Allowed := W.Allowed

/-- The body of a module may run, at a world of its own, and keeping its exports leads back. -/
def Enters (W : Watch) (p : Program) (w : W.World) (m : Module) (s : State) : Prop :=
  ∃ w₁, W.Holds w₁ s.memo (s.log.push (.moduleStarted m.name)) ∧ (∀ st ∈ m.body, W.Allowed w₁ st) ∧
    (∀ x s', m.StopsIn p s x s' → W.Stopped w₁ x s' → W.Stopped w x s') ∧
    ∀ s' exports, m.EndsIn p s exports s' → W.Holds w₁ s'.memo s'.log → m.Offers exports →
      W.Holds w (Table.insert s'.memo m.name exports) ((s'.log.push (.moduleFinished m.name exports.length)).push
        (.exportsKept m.name (Table.names (Table.sorted exports))))

/-- How a module that was begun in `s` may end: with its exports, or short of that. -/
def Ended (W : Watch) (w : W.World) (m : Module) (s : State) : EStateM.Result Stop State Finished → Prop
  | .ok r s' => ∃ s₁, W.At w s₁ ∧ s' = s₁.finished m r.exports
  | .error x s' => (x = .exhausted ∧ s' = s) ∨ W.Stopped w x s'

/-- The second program has the same host, and the same modules wherever an import may be made. -/
structure Agree (W : Watch) (p q : Program) : Prop where
  natives : q.natives = p.natives
  modules : ∀ {w source names}, W.Allowed w (.importFrom source names) → source ≠ nativeName →
    findModule? q.modules source = findModule? p.modules source

structure Lawful (W : Watch) (p : Program) : Prop where
  stop : ∀ {w x s}, W.Holds w s.memo s.log → x.Local → W.Stopped w x s
  fault : ∀ {w s} (f : Fault), W.Holds w s.memo s.log → W.Stopped w (.fault f) s
  empty : W.Body []
  body : ∀ {w body}, W.Body body → ∀ st ∈ body, W.Allowed w st
  function : ∀ {w name params body}, W.Allowed w (.function name params body) → W.Body body
  branch : ∀ {w condition whenTrue whenFalse}, W.Allowed w (.branch condition whenTrue whenFalse) →
    (∀ st ∈ whenTrue, W.Allowed w st) ∧ ∀ st ∈ whenFalse, W.Allowed w st
  loop : ∀ {w condition body}, W.Allowed w (.loop condition body) → ∀ st ∈ body, W.Allowed w st
  missing : ∀ {w source names s}, W.Holds w s.memo s.log → W.Allowed w (.importFrom source names) →
    source ≠ nativeName → findModule? p.modules source = none → W.Stopped w (.failure (.noSuchModule source)) s
  enters : ∀ {w m names s}, W.Holds w s.memo s.log → W.Allowed w (.importFrom m.name names) →
    m.name ≠ nativeName → findModule? p.modules m.name = some m → Table.get? s.memo m.name = none → W.Enters p w m s

namespace Lawful

theorem room {w : W.World} {e : ScopeId} {names : List String} : W.pairing.Room w e names :=
  ⟨trivial, fun _ _ => trivial⟩

theorem hostLawful (L : W.Lawful p) : W.pairing.HostLawful where
  later_refl _ := rfl
  later_trans := Eq.trans
  stopped_mono hw h := by cases hw; exact h
  here_mono _ _ := trivial
  open_mono _ _ := trivial
  fine_mono _ h := h
  allowed_mono hw h := by cases hw; exact h
  fine_number _ _ := trivial
  fine_boolean _ _ := trivial
  fine_string _ _ := trivial
  fine_null _ := trivial
  stop h hx := ⟨h.1, h.2.clean, L.stop h.2.holds hx⟩
  scopes_size h := by
    obtain ⟨⟨log, rfl⟩, -⟩ := h
    rfl
  objects_size h := by
    obtain ⟨⟨log, rfl⟩, -⟩ := h
    rfl
  parent h _ := by
    obtain ⟨⟨log, rfl⟩, -⟩ := h
    exact ⟨rfl, fun _ _ => trivial⟩
  bindings h _ := by
    obtain ⟨⟨log, rfl⟩, h⟩ := h
    exact ⟨rfl, h.store.bindings _⟩
  fields h _ := by
    obtain ⟨⟨log, rfl⟩, h⟩ := h
    exact ⟨rfl, h.store.fields _⟩
  bind name h _ _ hb := by
    obtain ⟨⟨log, rfl⟩, h⟩ := h
    exact ⟨⟨log, rfl⟩, h.store.bind _ name hb, h.memo, h.holds⟩
  setField name h _ hv := by
    obtain ⟨⟨log, rfl⟩, h⟩ := h
    exact ⟨⟨log, rfl⟩, h.store.setField _ name hv, h.memo, h.holds⟩
  newScope h _ := by
    obtain ⟨⟨log, rfl⟩, h⟩ := h
    exact ⟨_, rfl, ⟨⟨log, rfl⟩, h.store.newScope _, h.memo, h.holds⟩, fun _ => room⟩
  newObject h hf := by
    obtain ⟨⟨log, rfl⟩, h⟩ := h
    exact ⟨_, rfl, ⟨⟨log, rfl⟩, h.store.newObject hf, h.memo, h.holds⟩, trivial⟩
  native _ _ := trivial
  emptyClosure _ _ _ := L.empty
  fault f h := ⟨h.1, h.2.clean, L.fault f h.2.holds⟩
  write text h := by
    obtain ⟨⟨log, rfl⟩, h⟩ := h
    exact ⟨⟨log, rfl⟩, h.store, h.memo, h.holds⟩
  readLine h := by
    obtain ⟨⟨log, rfl⟩, h⟩ := h
    exact ⟨rfl, ⟨log, rfl⟩, h.store, h.memo, h.holds⟩
  readClock h := by
    obtain ⟨⟨log, rfl⟩, h⟩ := h
    exact ⟨rfl, ⟨log, rfl⟩, h.store, h.memo, h.holds⟩
  turn h := by
    obtain ⟨⟨log, rfl⟩, h⟩ := h
    exact ⟨rfl, ⟨log, rfl⟩, h.store, h.memo, h.holds⟩

theorem started_at {w : W.World} {s : State} {m : Module} (h : W.At w s) {w₁ : W.World}
    (hw : W.Holds w₁ s.memo (s.log.push (.moduleStarted m.name))) : W.At w₁ (s.started m) :=
  ⟨h.store.newScope none, h.memo, hw⟩

/-- **Two programs run in step**, where they agree on the modules that may be imported from. -/
theorem runs_beside (L : W.Lawful p) {q : Program} (h : W.Agree p q) : W.pairing.Runs p q where
  toLawful := L.hostLawful.toLawful
  closure_runs h := ⟨trivial, L.body h⟩
  closure_made _ h := L.function h
  branch h := L.branch h
  loop h := L.loop h
  labels _ x _ := L.hostLawful.mayMeet x
  call _ hargs := L.hostLawful.call_inStep _ hargs
  native _ name := by
    unfold Program.native?
    rw [h.natives]
    exact ⟨rfl, fun _ _ => trivial⟩
  memo h := by
    obtain ⟨⟨log, rfl⟩, h⟩ := h
    exact ⟨rfl, h.memo⟩
  sameModule himp hs := let ⟨_, hn⟩ := himp; (h.modules hn hs).symm
  missing h himp hs hm := let ⟨_, hn⟩ := himp; ⟨h.1, h.2.clean, L.missing h.2.holds hn hs hm⟩
  enters := by
    rintro w m s t ⟨⟨log, rfl⟩, h⟩ ⟨names, hn⟩ hs hm hk
    obtain ⟨w₁, hstart, hbody, hstop, hback⟩ := L.enters h.holds hn hs hm hk
    refine ⟨w₁, ⟨⟨_, rfl⟩, started_at h hstart⟩, fun _ => room, hbody, ?_, ?_⟩
    · rintro x s' t' hrun ⟨hbeside, hclean, hx⟩
      exact ⟨hbeside, hclean, hstop x s' hrun hx⟩
    · rintro w₂ s' t' exports hrun rfl ⟨⟨log', rfl⟩, h'⟩ hexports hoffers
      refine ⟨w, rfl, ⟨⟨_, rfl⟩, h'.store, fun x hx => ?_, hback s' exports hrun h'.holds hoffers⟩, hexports⟩
      rcases Table.mem_insert hx with rfl | hx
      · exact hexports
      · exact h'.memo x hx

theorem runs (L : W.Lawful p) : W.pairing.Runs p p := L.runs_beside ⟨rfl, fun _ _ => rfl⟩

theorem ended_of_ends {w : W.World} {m : Module} {s : State} {r r' : EStateM.Result Stop State Finished}
    (h : W.pairing.ModuleEnds w m s s r r') : W.Ended w m s r := by
  cases h with
  | finished hw hst _ _ =>
    cases hw
    exact ⟨_, hst.2, rfl⟩
  | stopped hx => exact .inr hx.2.2
  | unstarted => exact .inl ⟨rfl, rfl⟩

/-- **A module that is run keeps to what is watched**, to its end or to the point at which it stops. -/
theorem runModule_ended (L : W.Lawful p) {w : W.World} {s : State} {m : Module} (h : W.At w (s.started m))
    (hbody : ∀ st ∈ m.body, W.Allowed w st) (n : Nat) : W.Ended w m s (runModule p n m s) := by
  have hcode : W.pairing.Code w m.body := hbody
  exact ended_of_ends (L.runs.runModule_ends ⟨.refl _, h⟩ (fun _ => room) hcode n)

end Lawful
end Watch

/-! ## Around the first module -/

def State.logged (s : State) (e : Event) : State := { s with log := s.log.push e }

def Program.begun (p : Program) (check : Bool) (s : State) : State :=
  (if check then s.logged (.noCycle p.modules.length) else s).logged (.programStarted p.modules.length)

def State.broken (s : State) : Stop → State
  | .failure f => s.logged (.programFailed f)
  | .fault _ | .exhausted => s

namespace Program

variable {p : Program} {main : Module}

theorem run_of_failure {check : Bool} {fuel : Nat} {f : Failure} {s s' : State}
    (h : p.steps fuel check s = .error (.failure f) s') :
    p.run fuel check s = .error (.failure f) (s'.logged (.programFailed f)) := by
  rw [run, h]
  rfl

theorem run_of_selectMain_error {check : Bool} {f : Failure} (h : selectMain p.modules = .error f) (fuel : Nat)
    (s : State) : p.run fuel check s = .error (.failure f) (s.logged (.programFailed f)) := by
  have hsteps : p.steps fuel check s = .error (.failure f) s := by
    simp only [steps, h]
    rfl
  exact run_of_failure hsteps

theorem steps_of_missing {importer imported : String} {rest : List (String × String)}
    (hmain : selectMain p.modules = .ok main) (hmissing : missingImports p.modules = (importer, imported) :: rest)
    (fuel : Nat) (s : State) :
    p.steps fuel true s = .error (.failure (.noSuchModule imported)) (s.logged (.unknownImport importer imported)) := by
  simp only [steps, hmain, checkModules, hmissing]
  rfl

theorem steps_of_cycle {cycle : List String} (hmain : selectMain p.modules = .ok main)
    (hmissing : missingImports p.modules = []) (hcycle : findCycle p.modules = .ok (some cycle)) (fuel : Nat)
    (s : State) :
    p.steps fuel true s = .error (.failure (.circularDependency cycle)) (s.logged (.cycleFound cycle)) := by
  simp only [steps, hmain, checkModules, hmissing, searchCycle, hcycle]
  rfl

theorem steps_of_checked {check : Bool} (hmain : selectMain p.modules = .ok main)
    (hpasses : check = true → missingImports p.modules = [] ∧ findCycle p.modules = .ok none) (fuel : Nat) (s : State) :
    p.steps fuel check s =
      (runModule p fuel main >>= fun r => pure (r.result.getD .null) : Run Value) (p.begun check s) := by
  cases check with
  | false =>
    simp only [steps, hmain]
    rfl
  | true =>
    obtain ⟨hmissing, hcycle⟩ := hpasses rfl
    simp only [steps, hmain, checkModules, hmissing, searchCycle, hcycle]
    rfl

/-- **A program that passes the check runs its first module and nothing else.** -/
theorem run_of_checked {check : Bool} (hmain : selectMain p.modules = .ok main)
    (hpasses : check = true → missingImports p.modules = [] ∧ findCycle p.modules = .ok none) (fuel : Nat) (s : State) :
    p.run fuel check s = match runModule p fuel main (p.begun check s) with
      | .ok r s' => .ok (r.result.getD .null) s'
      | .error x s' => .error x (s'.broken x) := by
  simp only [run, steps_of_checked hmain hpasses, bind, EStateM.bind]
  cases runModule p fuel main (p.begun check s) with
  | ok r s' => rfl
  | error x s' => cases x <;> rfl

/-- **A program is refused, or it is begun.**  Refused, it fails and does nothing but take that down in the log. -/
theorem refused_or_begun (p : Program) (check : Bool) :
    (∃ f, ∃ note : Array Event → Array Event, ∀ fuel s,
        p.run fuel check s = .error (.failure f) { s with log := note s.log }) ∨
      ∃ main, selectMain p.modules = .ok main ∧
        (check = true → missingImports p.modules = [] ∧ findCycle p.modules = .ok none) := by
  cases hmain : selectMain p.modules with
  | error f => exact .inl ⟨f, (·.push (.programFailed f)), run_of_selectMain_error hmain⟩
  | ok main =>
    cases check with
    | false => exact .inr ⟨main, rfl, by simp⟩
    | true =>
      cases hmissing : missingImports p.modules with
      | cons pair rest =>
        obtain ⟨importer, imported⟩ := pair
        exact .inl ⟨_, fun log => (log.push (.unknownImport importer imported)).push (.programFailed _),
          fun fuel s => run_of_failure (steps_of_missing hmain hmissing fuel s)⟩
      | nil =>
        obtain ⟨g, hg, -⟩ := findCycle_eq p.modules hmissing
        cases hcycle : g.cycle? with
        | none => exact .inr ⟨main, rfl, fun _ => ⟨rfl, by rw [hg, hcycle]⟩⟩
        | some cycle =>
          rw [hcycle] at hg
          exact .inl ⟨_, fun log => (log.push (.cycleFound cycle)).push (.programFailed _),
            fun fuel s => run_of_failure (steps_of_cycle hmain hmissing hg fuel s)⟩

end Program

namespace Watch

variable {W : Watch} {p : Program}

/-- How a program may end whose first module was begun in this state: with that module, somewhere before its end, or,
without any fuel, before it started. -/
inductive RunEnds (W : Watch) (w : W.World) (main : Module) (begun : State) : EStateM.Result Stop State Value → Prop
  | finished {s : State} {v : Value} {exports : Table Value} :
      W.At w s → RunEnds W w main begun (.ok v (s.finished main exports))
  | stopped {s : State} {x : Stop} : W.Stopped w x s → RunEnds W w main begun (.error x (s.broken x))
  | unstarted : RunEnds W w main begun (.error .exhausted begun)

/-- **A program that passes the check keeps to what is watched**, from its first module on. -/
theorem Lawful.run_ends (L : W.Lawful p) {main : Module} {check : Bool} (hmain : selectMain p.modules = .ok main)
    (hmissing : missingImports p.modules = []) (hcycle : check = true → findCycle p.modules = .ok none) {w : W.World}
    (hbody : ∀ st ∈ main.body, W.Allowed w st) (fuel : Nat) (input : Input) (clock : Clock)
    (hholds : W.Holds w [] ((p.begun check (State.initial input clock)).log.push (.moduleStarted main.name))) :
    W.RunEnds w main (p.begun check (State.initial input clock)) (p.run fuel check (State.initial input clock)) := by
  have hat : W.At w ((p.begun check (State.initial input clock)).started main) := by
    cases check <;> exact ⟨Store.All.empty.newScope none, fun _ hx => (by cases hx), hholds⟩
  have hended := L.runModule_ended hat hbody fuel
  rw [Program.run_of_checked hmain fun h => ⟨hmissing, hcycle h⟩]
  generalize runModule p fuel main (p.begun check (State.initial input clock)) = r at hended
  cases r with
  | ok r s' =>
    obtain ⟨s, hs, rfl⟩ := hended
    exact .finished hs
  | error x s' =>
    rcases hended with ⟨rfl, rfl⟩ | hx
    · exact .unstarted
    · exact .stopped hx

end Watch
end Thicket
