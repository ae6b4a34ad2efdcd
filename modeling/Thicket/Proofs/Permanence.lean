import Mathlib.Logic.Relation
import Thicket.Proofs.Stepwise
/-!
# Nothing disappears

Every state that a program or a call of the evaluator can lead to, its end, the place where it stopped or any point on
the way, is whole, and has all that any state before it had (`store_stays_whole`).

One job leads onward by way of its parts, so by induction on the fuel its whole course does (`course_between`), and with
it every sequence of jobs and programs that starts from an empty store (`Arises`).
-/
namespace Thicket

variable {N : NativeFunction → Prop}

/-! ## The whole course -/

/-- What is begun between two states.  Each job is given what is there, in a whole state; nothing that is there when one
is begun is missing when a later one is, nor in the end. -/
structure Between (N : NativeFunction → Prop) (s s' : State) (jobs : List Begun) : Prop where
  onward : Onward N s s'
  given : ∀ x ∈ jobs, x.job.Given N x.state.store
  amid : ∀ x ∈ jobs, Onward N s x.state ∧ x.state.store.Grown s'.store
  ordered : jobs.Pairwise fun x y => x.state.store.Grown y.state.store

namespace Between

variable {s s₁ s' : State} {jobs jobs' : List Begun}

theorem nil (h : Onward N s s') : Between N s s' [] :=
  ⟨h, fun _ hx => (by cases hx), fun _ hx => (by cases hx), .nil⟩

theorem append (h : Between N s s₁ jobs) (h' : Between N s₁ s' jobs') : Between N s s' (jobs ++ jobs') where
  onward := h.onward.trans h'.onward
  given x hx := (List.mem_append.1 hx).elim (h.given x) (h'.given x)
  amid x hx := by
    rcases List.mem_append.1 hx with hx | hx
    · exact ⟨(h.amid x hx).1, (h.amid x hx).2.trans h'.onward.grown⟩
    · exact ⟨h.onward.trans (h'.amid x hx).1, (h'.amid x hx).2⟩
  ordered := List.pairwise_append.2
    ⟨h.ordered, h'.ordered, fun x hx y hy => (h.amid x hx).2.trans (h'.amid y hy).1.grown⟩

theorem onwards (h : Between N s s₁ jobs) (h' : Onward N s₁ s') : Between N s s' jobs := by
  have hall := h.append (.nil h')
  rwa [List.append_nil] at hall

theorem single {j : Job} {n : Nat} (h : Onward N s s') (hs : s.Whole N) (hj : j.Given N s.store) :
    Between N s s' [⟨j, s, n⟩] where
  onward := h
  given x hx := by rw [List.mem_singleton.1 hx]; exact hj
  amid x hx := by rw [List.mem_singleton.1 hx]; exact ⟨.refl hs, h.grown⟩
  ordered := List.pairwise_singleton _ _

end Between

section Course

variable {p : Program} {n : Nat} {s : State}

theorem Way.between {parts : List (Job × State)} {r : Option Stop × State} (h : Way N p n True s parts r)
    (hcourse : ∀ {j : Job} {s : State}, s.Whole N → j.Given N s.store →
      Between N s (stateOf (j.run p n s)) (j.course p n s)) :
    Between N s r.2 (parts.flatMap fun x => x.1.course p n x.2) := by
  have hpart : ∀ {s s₁ s₂ : State} {j : Job} {stop : Option Stop}, Gap N True s s₁ → (True → j.Given N s₁.store) →
      endOf (j.run p n s₁) = (stop, s₂) → Between N s s₂ (j.course p n s₁) := by
    intro s s₁ s₂ j stop hgap hj hend
    have h := hcourse (hgap.onward trivial).whole (hj trivial)
    rw [show stateOf (j.run p n s₁) = s₂ from congrArg Prod.snd hend] at h
    exact (Between.nil (hgap.onward trivial)).append h
  induction h with
  | done hgap => exact .nil (hgap.onward trivial)
  | through hgap hj hend _ ih => exact (hpart hgap hj hend).append ih
  | broken hgap hj hend =>
    rw [List.flatMap_singleton]
    exact hpart hgap hj hend

theorem onward_opened (hs : s.Whole N) (j : Job) : Onward N s (j.opened s) := by
  cases j with
  | runModule m => exact ⟨hs.started m, .newScope s.store none⟩
  | _ => exact .refl hs

/-- **The course of a job keeps everything whole.** -/
theorem course_between {p : Program} (H : HostedBy N p) :
    ∀ (n : Nat) {j : Job} {s : State}, s.Whole N → j.Given N s.store →
    Between N s (stateOf (j.run p n s)) (j.course p n s)
  -- on the fuel: the parts of a job have one less than the job
  | 0, _, _, hs, hj => .nil (Job.keeps H 0 hs hj).onward
  | n + 1, j, s, hs, hj => by
    cases hhost : j.host? with
    | none =>
      obtain ⟨r, hdone⟩ := done_by_parts (p := p) (n := n) (W := True) (fun _ => H) (fun _ => hs) (fun _ => hj) hhost
      have hparts := hdone.way.between (course_between H n)
      exact ((Between.single (onward_opened hs j) hs hj).append hparts).onwards (hdone.onward trivial)
    | some call =>
      have hparts : j.parts p n s = [] := Job.parts_of_host? hhost
      rw [Job.course, hparts]
      exact .single (Job.keeps H (n + 1) hs hj).onward hs hj

end Course

namespace Program

variable {s : State}

theorem onward_opening (p : Program) (check : Bool) (hs : s.Whole N) : Onward N s (stateOf (p.opening check s)) := by
  cases check with
  | false => exact .aside hs rfl fun _ hx => hx
  | true =>
    simp only [opening, if_true, checkModules]
    cases missingImports p.modules with
    | cons pair rest => exact .aside hs rfl fun _ hx => hx
    | nil =>
      simp only [searchCycle]
      cases findCycle p.modules with
      | error f => exact .refl hs
      | ok cycle => cases cycle <;> exact .aside hs rfl fun _ hx => hx

/-- A failure is put on record, and nothing else. -/
theorem onward_run (p : Program) (fuel : Nat) (check : Bool) (hs : (stateOf (p.steps fuel check s)).Whole N) :
    Onward N (stateOf (p.steps fuel check s)) (stateOf (p.run fuel check s)) := by
  unfold run
  generalize p.steps fuel check s = r at hs ⊢
  cases r with
  | ok v s' => exact .refl hs
  | error x s' => cases x <;> exact .aside hs rfl fun _ hx => hx

theorem steps_of_run {p : Program} {fuel : Nat} {check : Bool} {v : Value} {s' : State}
    (h : p.run fuel check s = .ok v s') : p.steps fuel check s = .ok v s' := by
  unfold run at h
  generalize p.steps fuel check s = r at h ⊢
  cases r with
  | ok v s' => exact h
  | error x s' => cases x <;> cases h

theorem between_steps {p : Program} (H : HostedBy N p) (fuel : Nat) (check : Bool) (hs : s.Whole N) :
    Between N s (stateOf (p.steps fuel check s)) (p.course fuel check s) ∧
      ∀ v s', p.steps fuel check s = .ok v s' → v.ExistsIn N s'.store := by
  have hopening := p.onward_opening check hs
  unfold course
  cases hmain : selectMain p.modules with
  | error f =>
    have hfails : p.steps fuel check s = .error (.failure f) s := by
      simp only [steps, hmain]
      rfl
    rw [hfails]
    exact ⟨.nil (.refl hs), fun _ _ h => by cases h⟩
  | ok main =>
    rw [steps_eq hmain]
    cases ho : p.opening check s with
    | error x s₁ =>
      rw [ho] at hopening
      rw [Run.bind_of_error ho]
      exact ⟨.nil hopening, fun _ _ h => by cases h⟩
    | ok u s₁ =>
      rw [ho] at hopening
      rw [Run.bind_of_ok ho, stateOf_bind_of_still fun _ _ => rfl]
      refine ⟨?_, fun v s' h => ?_⟩
      · have h := (Between.nil hopening).append (course_between H fuel (j := .runModule main) hopening.whole trivial)
        rwa [Job.run, stateOf_map] at h
      · obtain ⟨r, s₂, hr, hv⟩ := Run.bind_eq_ok h
        cases hv
        have hgives := (Job.keeps H fuel (j := .runModule main) hopening.whole trivial).gives _ _ (Run.map_of_ok hr _)
        cases hresult : r.result with
        | none => exact trivial
        | some v => exact hgives v (List.mem_append_left _ (by rw [hresult]; exact List.mem_cons_self))

theorem between_run {p : Program} (H : HostedBy N p) (fuel : Nat) (check : Bool) (hs : s.Whole N) :
    Between N s (stateOf (p.run fuel check s)) (p.course fuel check s) := by
  have h := (between_steps H fuel check hs).1
  exact h.onwards (p.onward_run fuel check h.onward.whole)

end Program

/-! ## The walk outward -/

namespace Store

/-- The second scope is the one around the first. -/
def Around (s : Store) (e a : ScopeId) : Prop := s.parent? e = some a

variable {s : Store} {e a : ScopeId}

theorem lt_of_transGen_around (hs : s.Outward) (h : Relation.TransGen s.Around e a) : a < e := by
  induction h with
  | single h => exact hs _ _ h
  | tail _ h ih => exact Nat.lt_trans (hs _ _ h) ih

theorem mem_chainWithin_iff (hs : s.Outward) : ∀ {n : Nat} {e : ScopeId}, e < n →
    (a ∈ s.chainWithin n e ↔ Relation.ReflTransGen s.Around e a)
  | n + 1, e, hlt => by
    rw [chainWithin, List.mem_cons, Relation.ReflTransGen.cases_head_iff, eq_comm]
    refine or_congr Iff.rfl ?_
    cases hp : s.parent? e with
    | none => simp [Around, hp]
    | some b =>
      have hlt' : b < n := Nat.lt_of_lt_of_le (hs e b hp) (Nat.le_of_lt_succ hlt)
      simp [Around, hp, mem_chainWithin_iff hs hlt']

end Store

/-! ## Everything that can happen -/

/-- What may be done from outside, with anything that is there, and where that leads. -/
inductive Goes (s : State) : State → Prop
  /-- The evaluator does a job to its end, or stops short. -/
  | asked (p : Program) (n : Nat) (j : Job) : j.Given anyHost s.store → Goes s (stateOf (j.run p n s))
  /-- It is still at it. -/
  | amid {p : Program} {n : Nat} {j : Job} {x : Begun} : j.Given anyHost s.store → x ∈ j.course p n s → Goes s x.state
  /-- A program is run to its end, or stops short. -/
  | ran (p : Program) (fuel : Nat) (check : Bool) : Goes s (stateOf (p.run fuel check s))
  /-- It is still running. -/
  | running {p : Program} {fuel : Nat} {check : Bool} {x : Begun} : x ∈ p.course fuel check s → Goes s x.state
  | scope {parent : Option ScopeId} : (∀ a ∈ parent, a < s.store.scopes.size) →
      Goes s (s.on fun store => (store.newScope parent).2)
  | bound (e : ScopeId) (name : String) {b : Binding} : (∀ v ∈ b, v.ExistsIn anyHost s.store) →
      Goes s (s.on (·.bind e name b))
  /-- A value is made from outside. -/
  | built (b : Blueprint) : Goes s (s.on fun store => (b.build store).2)
  /-- There is other input, say, or another clock, or kept exports are forgotten. -/
  | aside {s' : State} : s'.store = s.store → (∀ x ∈ s'.memo, x ∈ s.memo) → Goes s s'

/-- The state comes about from an empty store. -/
def Arises (s : State) : Prop := ∃ input clock, Relation.ReflTransGen Goes (State.initial input clock) s

theorem Goes.onward {s s' : State} (h : Goes s s') (hs : s.Whole anyHost) : Onward anyHost s s' := by
  cases h with
  | asked p n j hj => exact (Job.keeps (hostedBy_any p) n hs hj).onward
  | amid hj hx => exact ((course_between (hostedBy_any _) _ hs hj).amid _ hx).1
  | ran p fuel check => exact (Program.between_run (hostedBy_any p) fuel check hs).onward
  | running hx => exact ((Program.between_run (hostedBy_any _) _ _ hs).amid _ hx).1
  | scope hparent => exact ⟨hs.newScope hparent, .newScope s.store _⟩
  | bound e name hb => exact ⟨hs.bind e name hb, .bind s.store e name _⟩
  | built b => exact (Keeps.of_inStep (wholeness_lawful.build_inStep s.store b) hs fun hw hv => hv.later hw).onward
  | aside hstore hmemo => exact .aside hs hstore hmemo

theorem onward_of_goes {s s' : State} (hs : s.Whole anyHost) (h : Relation.ReflTransGen Goes s s') :
    Onward anyHost s s' := by
  induction h with
  | refl => exact .refl hs
  | tail _ hstep ih => exact ih.trans (hstep.onward ih.whole)

/-- **The store stays whole, and nothing in it disappears.**  In every state that comes about from an empty store, after
any number of jobs and programs, those that stopped short and those that are still at it among them:

* every scope lies in an older one, so none lies in itself, and the walk outward meets all that are around it and ends;
* every function that a name, a field or a kept export holds has a scope that is there, and every object is there;
* the same holds of all that a job or a program is given, on its way, and of what it gives;
* whatever is done next, each scope is still there, inside the same one, and each object, name and field. -/
theorem store_stays_whole {s : State} (h : Arises s) :
    s.Whole anyHost ∧
      (∀ e, ¬ Relation.TransGen s.store.Around e e) ∧
      (∀ e a, a ∈ s.store.chain e ↔ Relation.ReflTransGen s.store.Around e a) ∧
      (∀ (p : Program) n (j : Job), j.Given anyHost s.store →
        Between anyHost s (stateOf (j.run p n s)) (j.course p n s) ∧
        ∀ vs s', j.run p n s = .ok vs s' → ∀ v ∈ vs, v.ExistsIn anyHost s'.store) ∧
      (∀ (p : Program) fuel check, Between anyHost s (stateOf (p.run fuel check s)) (p.course fuel check s) ∧
        ∀ v s', p.run fuel check s = .ok v s' → v.ExistsIn anyHost s'.store) ∧
      ∀ s', Relation.ReflTransGen Goes s s' → s.store.Grown s'.store := by
  obtain ⟨input, clock, h⟩ := h
  have hs : s.Whole anyHost := (onward_of_goes (.initial input clock) h).whole
  refine ⟨hs, fun e he => ?_, fun e a => ?_, fun p n j hj => ⟨?_, ?_⟩, fun p fuel check => ⟨?_, fun v s' hv => ?_⟩,
    fun s' hs' => ?_⟩
  · exact Nat.lt_irrefl e (Store.lt_of_transGen_around hs.outward he)
  · exact Store.mem_chainWithin_iff hs.outward (Nat.lt_succ_self e)
  · exact course_between (hostedBy_any p) n hs hj
  · exact (Job.keeps (hostedBy_any p) n hs hj).gives
  · exact Program.between_run (hostedBy_any p) fuel check hs
  · exact (Program.between_steps (hostedBy_any p) fuel check hs).2 v s' (Program.steps_of_run hv)
  · exact (onward_of_goes hs hs').grown

/-- A call that breaks off after it has put a function of its own into an object from outside. -/
def greenhouse : Program where
  modules :=
    [⟨"Main",
      [.declare "pot", .assign "pot" (.object [("owner", .null)]),
       .function "plant" ["it"]
        [.setField (.ref "pot") "seed" (.ref "it"), .function "water" [] [],
         .setField (.ref "pot") "can" (.ref "water"), .run (.ref "sun")],
       .run (.call (.ref "plant") [.ref "plant"])], []⟩]
  natives := []

def greenhouseState : State := stateOf (greenhouse.run 20 false (State.initial (.queue []) (.steady 0)))

theorem greenhouse_stays_whole :
    stopOf (greenhouse.run 20 false (State.initial (.queue []) (.steady 0))) = some (.failure (.notInScope "sun")) ∧
      Arises greenhouseState ∧ greenhouseState.store.chain 1 = [1, 0] ∧
      (∀ x ∈ greenhouseState.store.fields 0, x.2.ExistsIn anyHost greenhouseState.store) ∧
      ∀ s', Relation.ReflTransGen Goes greenhouseState s' →
        ∀ name ∈ ["owner", "seed", "can"], name ∈ Table.names (s'.store.fields 0) := by
  have harises : Arises greenhouseState := ⟨.queue [], .steady 0, .single (.ran greenhouse 20 false)⟩
  have hfields : Table.names (greenhouseState.store.fields 0) = ["owner", "seed", "can"] := by decide +kernel
  obtain ⟨hwhole, -, -, -, -, hlater⟩ := store_stays_whole harises
  refine ⟨by decide +kernel, harises, by decide +kernel, hwhole.values.fields 0, fun s' hs' name hname => ?_⟩
  exact (hlater s' hs').fields 0 name (hfields ▸ hname)

end Thicket
