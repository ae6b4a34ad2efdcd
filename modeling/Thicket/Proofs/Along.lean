import Thicket.Proofs.Progress
import Thicket.Proofs.Stepwise
/-!
# Along a course

A job leaves what its parts leave, one after the other, and a little of its own.  So what is to be known of a state, as
far as it depends on the jobs that were begun before, is known once it is known what beginning a job does, what a
function of the host does, and what is done when exports are kept (`Along`).  Then it holds from the beginning of a
course to its end (`Along.course`), and to every job on the way (`Along.upTo`).

The log is one such thing: the modules that it says were started are those that were run (`started_run`).
-/
namespace Thicket

/-- What is said of two states and the jobs that are begun on the way from one to the other. -/
structure Along (p : Program) (Q : State → List Begun → State → Prop) : Prop where
  still : ∀ {s s'}, s.Still s' → Q s [] s'
  append : ∀ {s s₁ s' jobs jobs'}, Q s jobs s₁ → Q s₁ jobs' s' → Q s (jobs ++ jobs') s'
  noted : ∀ {s} {e : Event}, e.Quiet → Q s [] (s.logged e)
  host : ∀ f args s n, Q s [⟨.apply (.native f) args, s, n + 1⟩] (stateOf (f.call args s))
  opened : ∀ {x : Begun}, x.job.host? = none → Q x.state [x] (x.job.opened x.state)
  kept : ∀ {m name r n s s' jobs}, m.name ≠ nativeName → findModule? p.modules m.name = some m →
    Table.get? s.memo m.name = none → runModule p n m s = .ok r s' → ⟨.runModule m, s, n⟩ ∈ jobs →
    Q s (⟨.exportedValue m.name name, s, n + 1⟩ :: jobs) s' →
    Q s (⟨.exportedValue m.name name, s, n + 1⟩ :: jobs) (s'.remembered m r.exports)

/-- What a job does without the host comes of its parts, whatever the state. -/
theorem exists_done (p : Program) (n : Nat) {j : Job} (hhost : j.host? = none) (s : State) :
    ∃ r, Done anyHost p n False j s r :=
  done_by_parts False.elim False.elim False.elim hhost

namespace Along

variable {p : Program} {Q : State → List Begun → State → Prop} {n : Nat} {j : Job} {s : State}

theorem onwards (A : Along p Q) {s s₁ s' : State} {jobs : List Begun} (h : Q s jobs s₁) (h' : Q s₁ [] s') :
    Q s jobs s' := by
  have hall := A.append h h'
  rwa [List.append_nil] at hall

theorem closes (A : Along p Q) {x : Begun} {jobs : List Begun} {s s' : State} (h : Q x.state (x :: jobs) s)
    (hclose : Closes p x jobs s s') : Q x.state (x :: jobs) s' := by
  cases hclose with
  | still hstill => exact A.onwards h (A.still hstill)
  | @finished m r => exact A.onwards h (A.noted (e := .moduleFinished m.name r.exports.length) trivial)
  | kept hnative hm hk hr hmem => exact A.kept hnative hm hk hr hmem h

theorem way_of (A : Along p Q) (hcourse : ∀ (j : Job) (s : State), Q s (j.course p n s) (stateOf (j.run p n s)))
    {N : NativeFunction → Prop} {W : Prop} {parts : List (Job × State)} {r : Option Stop × State}
    (h : Way N p n W s parts r) : Q s (parts.flatMap fun x => x.1.course p n x.2) r.2 := by
  have hpart : ∀ {s s₁ s₂ : State} {j : Job} {stop : Option Stop}, Gap N W s s₁ →
      endOf (j.run p n s₁) = (stop, s₂) → Q s (j.course p n s₁) s₂ := by
    intro s s₁ s₂ j stop hgap hend
    have h := A.append (A.still hgap.still) (hcourse j s₁)
    rwa [show stateOf (j.run p n s₁) = s₂ from congrArg Prod.snd hend] at h
  induction h with
  | done hgap => exact A.still hgap.still
  | through hgap _ hend _ ih => exact A.append (hpart hgap hend) ih
  | broken hgap _ hend =>
    rw [List.flatMap_singleton]
    exact hpart hgap hend

/-- **From the beginning of a job to its end.** -/
theorem course (A : Along p Q) : ∀ (n : Nat) (j : Job) (s : State), Q s (j.course p n s) (stateOf (j.run p n s))
  -- on the fuel: the parts of a job have one less than the job
  | 0, j, s => by
    have hend : stateOf (j.run p 0 s) = s := by cases j <;> rfl
    rw [hend]
    exact A.still (.refl s)
  | n + 1, j, s => by
    cases hhost : j.host? with
    | some call =>
      obtain rfl := Job.eq_of_host? hhost
      rw [Job.run, stateOf_map]
      exact A.host call.1 call.2 s n
    | none =>
      obtain ⟨r, hdone⟩ := exists_done p n hhost s
      have hparts := A.way_of (A.course n) hdone.way
      exact A.closes (x := ⟨j, s, n + 1⟩) (A.append (A.opened (x := ⟨j, s, n + 1⟩) hhost) hparts) hdone.closes

theorem singleton_eq {α : Type} {a b : α} {pre post : List α} (h : [a] = pre ++ b :: post) : pre = [] ∧ b = a := by
  cases pre with
  | nil => exact ⟨rfl, (List.cons.inj h).1.symm⟩
  | cons c rest => simp at h

/-- What is so along a course is so up to each of its jobs. -/
theorem points (A : Along p Q) :
    Along p fun s jobs s' => Q s jobs s' ∧ ∀ pre x post, jobs = pre ++ x :: post → Q s pre x.state where
  still h := ⟨A.still h, fun pre x post heq => by simp at heq⟩
  append h h' := by
    refine ⟨A.append h.1 h'.1, fun pre x post heq => ?_⟩
    rcases List.append_eq_append_iff.1 heq with ⟨mid, rfl, hmid⟩ | ⟨mid, hjobs, hrest⟩
    · exact A.append h.1 (h'.2 mid x post hmid)
    · cases mid with
      | nil =>
        rw [List.append_nil] at hjobs
        have hfirst := A.append h.1 (h'.2 [] x post hrest.symm)
        rwa [List.append_nil, hjobs] at hfirst
      | cons y mid =>
        obtain ⟨rfl, -⟩ := List.cons.inj hrest
        exact h.2 pre x mid hjobs
  noted h := ⟨A.noted h, fun pre x post heq => by simp at heq⟩
  host f args s n := by
    refine ⟨A.host f args s n, fun pre x post heq => ?_⟩
    obtain ⟨rfl, rfl⟩ := singleton_eq heq
    exact A.still (.refl s)
  opened {y} hy := by
    refine ⟨A.opened hy, fun pre x post heq => ?_⟩
    obtain ⟨rfl, rfl⟩ := singleton_eq heq
    exact A.still (.refl _)
  kept hnative hm hk hr hmem h := ⟨A.kept hnative hm hk hr hmem h.1, h.2⟩

/-- **From the beginning of a job to any that is begun in its course.** -/
theorem upTo (A : Along p Q) {pre post : List Begun} {x : Begun} (h : j.course p n s = pre ++ x :: post) :
    Q s pre x.state :=
  (A.points.course n j s).2 pre x post h

/-! ## Programs -/

theorem opening (A : Along p Q) (check : Bool) (s : State) : Q s [] (stateOf (p.opening check s)) := by
  have hnote : ∀ {s} {e : Event}, e.Quiet → Q s [] (s.logged e) := A.noted
  have hstart : ∀ s, Q s [] (s.logged (.programStarted p.modules.length)) := fun s => hnote trivial
  cases check with
  | false => exact hstart s
  | true =>
    simp only [Program.opening, if_true, checkModules]
    cases missingImports p.modules with
    | cons pair rest => exact hnote (e := .unknownImport pair.1 pair.2) trivial
    | nil =>
      simp only [searchCycle]
      cases findCycle p.modules with
      | error f => exact A.still (.refl s)
      | ok cycle =>
        cases cycle with
        | some cycle => exact hnote (e := .cycleFound cycle) trivial
        | none => exact A.onwards (hnote (e := .noCycle p.modules.length) trivial) (hstart _)

/-- **From the beginning of a program to its end.** -/
theorem run (A : Along p Q) (fuel : Nat) (check : Bool) (s : State) :
    Q s (p.course fuel check s) (stateOf (p.run fuel check s)) := by
  have hsteps : Q s (p.course fuel check s) (stateOf (p.steps fuel check s)) := by
    have hopening := A.opening check s
    unfold Program.course
    cases hmain : selectMain p.modules with
    | error f =>
      have hfails : p.steps fuel check s = .error (.failure f) s := by
        simp only [Program.steps, hmain]
        rfl
      rw [hfails]
      exact A.still (.refl s)
    | ok main =>
      rw [Program.steps_eq hmain]
      cases ho : p.opening check s with
      | error x s₁ =>
        rw [ho] at hopening
        rw [Run.bind_of_error ho]
        exact hopening
      | ok u s₁ =>
        rw [ho] at hopening
        rw [Run.bind_of_ok ho, stateOf_bind_of_still fun _ _ => rfl]
        have h := A.append hopening (A.course fuel (.runModule main) s₁)
        rwa [Job.run, stateOf_map] at h
  unfold Program.run
  generalize p.steps fuel check s = r at hsteps
  cases r with
  | ok v s' => exact hsteps
  | error x s' =>
    cases x with
    | failure f => exact A.onwards hsteps (A.noted (e := .programFailed f) trivial)
    | fault _ | exhausted => exact hsteps

theorem upToRun (A : Along p Q) {fuel : Nat} {check : Bool} {pre post : List Begun} {x : Begun}
    (h : p.course fuel check s = pre ++ x :: post) : Q s pre x.state :=
  (A.points.run fuel check s).2 pre x post h

end Along

/-! ## What stops a job -/

section

variable {N : NativeFunction → Prop} {p : Program} {n : Nat} {W : Prop} {s : State} {parts : List (Job × State)}
  {r : Option Stop × State}

/-- A part has stopped short, and that was the end; or it has not, and the way goes on from there. -/
theorem Way.cases_of_mem (h : Way N p n W s parts r) {part : Job × State} (hpart : part ∈ parts) :
    (∃ x, endOf (part.1.run p n part.2) = (some x, r.2) ∧ r.1 = some x) ∨
      ∃ rest s₂, endOf (part.1.run p n part.2) = (none, s₂) ∧ Way N p n W s₂ rest r := by
  induction h with
  | done _ => cases hpart
  | through _ _ hend hway ih =>
    rcases List.mem_cons.1 hpart with rfl | hpart
    · exact .inr ⟨_, _, hend, hway⟩
    · exact ih hpart
  | broken _ _ hend =>
    rw [List.mem_singleton.1 hpart]
    exact .inl ⟨_, hend, rfl⟩

/-- **A job that stops short stops all in whose course it was begun**, for the same cause and in the same state. -/
theorem course_stops (p : Program) : ∀ (n : Nat) {j : Job} {s s' : State} {x : Begun} {y : Stop},
    x ∈ j.course p n s → endOf (x.run p) = (some y, s') → endOf (j.run p n s) = (some y, s')
  | 0, _, _, _, _, _, hx, _ => by cases hx
  | n + 1, j, s, s', x, y, hx, hend => by
    rcases List.mem_cons.1 hx with rfl | hx
    · exact hend
    cases hhost : j.host? with
    | some call =>
      rw [Job.parts_of_host? hhost] at hx
      cases hx
    | none =>
      obtain ⟨part, hpart, hx⟩ := List.mem_flatMap.1 hx
      have hstop := course_stops p n hx hend
      obtain ⟨r, hdone⟩ := exists_done p n hhost s
      rcases hdone.way.cases_of_mem hpart with ⟨z, hz, hr⟩ | ⟨_, _, hnone, _⟩
      · rw [hstop] at hz
        obtain ⟨hyz, hstate⟩ := Prod.mk.inj hz
        cases hyz
        rw [hdone.stops y hr, hstate]
        exact Prod.ext hr rfl
      · rw [hstop] at hnone
        cases hnone

theorem Along.trans {M : State → State → Prop} (A : Along p fun s _ s' => M s s') {s s₁ s' : State} (h : M s s₁)
    (h' : M s₁ s') : M s s' :=
  @Along.append p _ A s s₁ s' [] [] h h'

theorem Along.of_closes {M : State → State → Prop} (A : Along p fun s _ s' => M s s')
    (hkept : ∀ s m exports, M s (s.remembered m exports)) {x : Begun} {jobs : List Begun} {s s' : State}
    (h : Closes p x jobs s s') : M s s' := by
  cases h with
  | still hstill => exact A.still hstill
  | @finished m r => exact A.noted (e := .moduleFinished m.name r.exports.length) trivial
  | kept _ _ _ _ _ => exact hkept _ _ _

/-- What only grows has grown from the end of a job on the way to the end of all. -/
theorem Along.after {M : State → State → Prop} (A : Along p fun s _ s' => M s s')
    (hkept : ∀ s m exports, M s (s.remembered m exports)) : ∀ (n : Nat) {j : Job} {s : State} {x : Begun},
    x ∈ j.course p n s → M (stateOf (x.run p)) (stateOf (j.run p n s))
  | 0, _, _, _, hx => by cases hx
  | n + 1, j, s, x, hx => by
    rcases List.mem_cons.1 hx with rfl | hx
    · exact A.still (.refl _)
    cases hhost : j.host? with
    | some call =>
      rw [Job.parts_of_host? hhost] at hx
      cases hx
    | none =>
      obtain ⟨part, hpart, hx⟩ := List.mem_flatMap.1 hx
      obtain ⟨r, hdone⟩ := exists_done p n hhost s
      have hrest : M (stateOf (part.1.run p n part.2)) r.2 := by
        rcases hdone.way.cases_of_mem hpart with ⟨z, hz, -⟩ | ⟨rest, s₂, hend, hway⟩
        · rw [show stateOf (part.1.run p n part.2) = r.2 from congrArg Prod.snd hz]
          exact A.still (.refl _)
        · rw [show stateOf (part.1.run p n part.2) = s₂ from congrArg Prod.snd hend]
          exact A.way_of (A.course n) hway
      exact A.trans (A.trans (A.after hkept n hx) hrest) (A.of_closes hkept hdone.closes)

/-- What only grows has grown from the beginning of any job on the way to the end of all. -/
theorem Along.amid {M : State → State → Prop} (A : Along p fun s _ s' => M s s')
    (hkept : ∀ s m exports, M s (s.remembered m exports)) :
    Along p fun s jobs s' => M s s' ∧ ∀ x ∈ jobs, M x.state s' where
  still h := ⟨A.still h, fun _ hx => by cases hx⟩
  append h h' := ⟨A.trans h.1 h'.1, List.forall_mem_append.2 ⟨fun x hx => A.trans (h.2 x hx) h'.1, h'.2⟩⟩
  noted h := ⟨A.noted h, fun _ hx => by cases hx⟩
  host f args s n := ⟨A.host f args s n, List.forall_mem_singleton.2 (A.host f args s n)⟩
  opened h := ⟨A.opened h, List.forall_mem_singleton.2 (A.opened h)⟩
  kept _ _ _ _ _ h := ⟨A.trans h.1 (hkept _ _ _), fun x hx => A.trans (h.2 x hx) (hkept _ _ _)⟩

end

/-! ## The log and what is kept -/

/-- What is kept and the log stay as they are. -/
def apart (memo : Table (Table Value)) (log : Array Event) : Watch where
  World := Unit
  Body _ := True
  Allowed _ _ := True
  Holds _ memo' log' := memo' = memo ∧ log' = log
  Stopped _ _ s := s.memo = memo ∧ s.log = log

/-- With no modules there is nothing to keep. -/
theorem apart_lawful (memo : Table (Table Value)) (log : Array Event) : (apart memo log).Lawful ⟨[], []⟩ where
  stop h _ := h
  fault _ h := h
  empty := trivial
  body _ _ _ := trivial
  function _ := trivial
  branch _ := ⟨fun _ _ => trivial, fun _ _ => trivial⟩
  loop _ _ _ := trivial
  missing h _ _ _ := h
  enters _ _ _ hm _ := by cases hm

/-- **A function of the host leaves the log and what is kept alone.** -/
theorem call_leaves (f : NativeFunction) (args : List Value) (s : State) :
    (stateOf (f.call args s)).memo = s.memo ∧ (stateOf (f.call args s)).log = s.log := by
  have hany : (apart s.memo s.log).pairing.FineAll () args := fun v _ => by cases v <;> exact trivial
  have hends := (apart_lawful s.memo s.log).hostLawful.call_inStep f hany s s
    ⟨.refl s, .of_holds (fun _ => trivial) ⟨rfl, rfl⟩⟩
  generalize f.call args s = r at hends
  cases hends with
  | done _ hsim _ => exact hsim.2.holds
  | stopped hx => exact hx.2.2

/-- The module that is run. -/
def Begun.module? (x : Begun) : Option String :=
  match x.job with
  | .runModule m => some m.name
  | _ => none

theorem started_along (p : Program) :
    Along p fun s jobs s' => started s'.log.toList = started s.log.toList ++ jobs.filterMap Begun.module? where
  still h := by
    obtain ⟨store, rfl⟩ := h
    exact (List.append_nil _).symm
  append h h' := by rw [h', h, List.filterMap_append, List.append_assoc]
  noted {s e} he := by
    show started (s.log.push e).toList = _
    rw [Array.toList_push, started_concat, he.started?]
    rfl
  host f args s n := by
    rw [(call_leaves f args s).2]
    exact (List.append_nil _).symm
  opened {x} _ := by
    obtain ⟨j, s, n⟩ := x
    cases j with
    | runModule m =>
      show started (s.log.push (.moduleStarted m.name)).toList = _
      rw [Array.toList_push, started_concat]
      rfl
    | _ => exact (List.append_nil _).symm
  kept {m name r n s s' jobs} _ _ _ _ _ h := by
    show started (s'.log.push _).toList = _
    rw [Array.toList_push, started_concat, h]
    exact List.append_nil _

/-- **The modules that the log says were started are those that were run**, one after the other. -/
theorem started_run (p : Program) (fuel : Nat) (check : Bool) (s : State) :
    started (stateOf (p.run fuel check s)).log.toList =
      started s.log.toList ++ (p.course fuel check s).filterMap Begun.module? :=
  (started_along p).run fuel check s

/-- The log has gone on, and of what was kept something still is. -/
structure State.Grows (s s' : State) : Prop where
  log : s.log.toList <+: s'.log.toList
  memo : ∀ name, (Table.get? s.memo name).isSome → (Table.get? s'.memo name).isSome

theorem State.Grows.logged (s : State) (e : Event) : s.Grows (s.logged e) :=
  ⟨⟨[e], Array.toList_push.symm⟩, fun _ h => h⟩

theorem State.Grows.remembered (s : State) (m : Module) (exports : Table Value) : s.Grows (s.remembered m exports) := by
  refine ⟨⟨[_], Array.toList_push.symm⟩, fun name h => ?_⟩
  show (Table.get? (Table.insert s.memo m.name exports) name).isSome
  rw [Table.get?_insert]
  split
  · rfl
  · exact h

theorem State.Grows.trans {s s₁ s' : State} (h : s.Grows s₁) (h' : s₁.Grows s') : s.Grows s' :=
  ⟨h.log.trans h'.log, fun name hs => h'.memo name (h.memo name hs)⟩

theorem grows_along (p : Program) : Along p fun s _ s' => s.Grows s' where
  still h := by
    obtain ⟨store, rfl⟩ := h
    exact ⟨List.prefix_rfl, fun _ h => h⟩
  append := .trans
  noted {s e} _ := .logged s e
  host f args s n := by
    obtain ⟨hmemo, hlog⟩ := call_leaves f args s
    exact ⟨hlog ▸ List.prefix_rfl, fun name h => hmemo ▸ h⟩
  opened {x} _ := by
    obtain ⟨j, s, n⟩ := x
    cases j with
    | runModule m => exact ⟨⟨[.moduleStarted m.name], Array.toList_push.symm⟩, fun _ h => h⟩
    | _ => exact ⟨List.prefix_rfl, fun _ h => h⟩
  kept _ _ _ _ _ h := h.trans (.remembered _ _ _)

end Thicket
