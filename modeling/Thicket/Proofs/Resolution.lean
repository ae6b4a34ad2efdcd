import Thicket.Proofs.Watch
/-!
# Modules that were found at the check are found at the run

An import is looked up when its statement runs, which may be in a function that has travelled far from the module it
was written in.  The check looks at the text of the modules only.  It is enough because code never comes from anywhere
else: every function in the store, in an object or among kept exports has its body from the text of some module, and
the check has seen every import in that text, at any depth.
-/
namespace Thicket

def Resolved (modules : List Module) (body : List Stmt) : Prop := ∀ i ∈ importsOf body, (findModule? modules i).isSome

theorem resolved_iff {modules : List Module} {body : List Stmt} :
    Resolved modules body ↔ ∀ st ∈ body, ∀ i ∈ st.imports, (findModule? modules i).isSome :=
  forall_mem_importsOf

theorem resolved_of_missingImports {modules : List Module} {m : Module} (h : missingImports modules = [])
    (hm : m ∈ modules) : Resolved modules m.body :=
  fun i hi => (missingImports_eq_nil_iff modules).1 h m hm i ((mem_collectImports m.body i).2 hi)

/-- All code is resolved, and nothing stops a run for lack of a module. -/
def resolution (modules : List Module) : Watch where
  World := Unit
  Body := Resolved modules
  Allowed _ st := ∀ i ∈ st.imports, (findModule? modules i).isSome
  Holds _ _ _ := True
  Stopped _ x _ := ∀ f, x = .failure f → (Stop.failure f).Local

theorem resolution_lawful {p : Program} (h : missingImports p.modules = []) : (resolution p.modules).Lawful p where
  stop _ hx f hf := hf ▸ hx
  fault _ _ f hf := by cases hf
  empty := fun _ hi => by cases hi
  body hbody := resolved_iff.1 hbody
  function hst := hst
  branch hst :=
    ⟨resolved_iff.1 fun i hi => hst i (List.mem_append_left _ hi),
      resolved_iff.1 fun i hi => hst i (List.mem_append_right _ hi)⟩
  loop hst := resolved_iff.1 hst
  missing := by
    intro w source names s _ hst hs hm
    have hsome := hst source (by simp [Stmt.imports, hs])
    rw [hm] at hsome
    cases hsome
  enters := by
    intro w m names s _ _ _ hm _
    exact ⟨(), trivial, resolved_iff.1 (resolved_of_missingImports h (List.mem_of_find?_eq_some hm)),
      fun _ _ _ hx => hx,
      fun _ _ _ _ _ => trivial⟩

theorem Stop.Local.code_ne {f : Failure} (h : (Stop.failure f).Local) :
    f.code ≠ .noSuchModule ∧ f.code ≠ .noMain ∧ f.code ≠ .multipleMains ∧ f.code ≠ .circularDependency := by
  cases f with
  | noSuchModule _ | noMain | multipleMains | circularDependency _ => exact absurd h id
  | notInScope _ | unassignedVariable _ | notFunction _ | notObject _ | typeMismatch _ _ | arityMismatch _ _
    | nativeReturnedFunction _ | noSuchExport _ _ => refine ⟨?_, ?_, ?_, ?_⟩ <;> (intro hcode; cases hcode)

/-- A program that has got past the check fails for no reason that has to do with which modules there are. -/
theorem local_of_run {p : Program} {main : Module} {check : Bool} (hmain : selectMain p.modules = .ok main)
    (hmem : main ∈ p.modules) (hmissing : missingImports p.modules = [])
    (hcycle : check = true → findCycle p.modules = .ok none) {fuel : Nat} {input : Input} {clock : Clock} {f : Failure}
    {s : State}
    (hrun : p.run fuel check (State.initial input clock) = .error (.failure f) s) : (Stop.failure f).Local := by
  have hends := (resolution_lawful hmissing).run_ends (w := ()) hmain hmissing hcycle
    (resolved_iff.1 (resolved_of_missingImports hmissing hmem)) fuel input clock trivial
  rw [hrun] at hends
  cases hends with
  | stopped hx => exact hx f rfl

/-- **What the check found, the run finds.**  In a program with one first module and no missing import, no run of any
length, checked or not, fails for lack of a module.  If there is no cycle of imports either, it fails for none of the
reasons that the check is about. -/
theorem run_finds_modules (p : Program) (hmain : p.modules.countP (fun m => m.name = mainName) = 1)
    (hmissing : missingImports p.modules = []) (fuel : Nat) (check : Bool) (input : Input) (clock : Clock)
    (f : Failure) (s : State)
    (hrun : p.run fuel check (State.initial input clock) = .error (.failure f) s) :
    f.code ≠ .noSuchModule ∧
      (findCycle p.modules = .ok none →
        f.code ≠ .noMain ∧ f.code ≠ .multipleMains ∧ f.code ≠ .circularDependency) := by
  obtain ⟨main, hselect, hmem, -⟩ := selectMain_of_count hmain
  obtain ⟨g, hanswer, -⟩ := findCycle_eq p.modules hmissing
  by_cases hpassed : check = true → findCycle p.modules = .ok none
  · obtain ⟨hno, hrest⟩ := (local_of_run hselect hmem hmissing hpassed hrun).code_ne
    exact ⟨hno, fun _ => hrest⟩
  · -- the check itself fails, and with the cycle that it has found
    obtain ⟨rfl, hfound⟩ := Classical.not_imp.1 hpassed
    cases hc : g.cycle? with
    | none => exact absurd (hc ▸ hanswer) hfound
    | some cycle =>
      rw [hc] at hanswer
      have hf : f = .circularDependency cycle := by
        simp only [Program.run, Program.steps_of_cycle hselect hmissing hanswer, EStateM.Result.error.injEq,
          Stop.failure.injEq] at hrun
        exact hrun.1.symm
      subst hf
      exact ⟨fun hcode => (by cases hcode), fun hnone => absurd hnone hfound⟩

/-- A function that imports from `Deep` is put into an object, handed on by `Shelf`, and called in `Main`.  It finds
`Deep`, and then fails for lack of an export. -/
def lateImport : Program where
  modules :=
    [⟨"Main", [.importFrom "Shelf" ["shelf"], .run (.call (.get (.ref "shelf") "late") [])], []⟩,
     ⟨"Shelf", [.function "late" [] [.importFrom "Deep" ["pearl"]], .declare "shelf",
        .assign "shelf" (.object [("late", .ref "late")])], ["shelf"]⟩,
     ⟨"Deep", [], []⟩]
  natives := []

theorem lateImport_finds_modules :
    lateImport.modules.countP (fun m => m.name = mainName) = 1 ∧ missingImports lateImport.modules = [] ∧
      findCycle lateImport.modules = .ok none ∧
      ∃ f s, lateImport.run 20 true (State.initial (.queue []) (.steady 0)) = .error (.failure f) s ∧
        f = .noSuchExport "Deep" "pearl" ∧ f.code ≠ .noSuchModule ∧
        f.code ≠ .noMain ∧ f.code ≠ .multipleMains ∧ f.code ≠ .circularDependency := by
  have hmain : lateImport.modules.countP (fun m => m.name = mainName) = 1 := by decide
  have hmissing : missingImports lateImport.modules = [] := by decide
  have hcycle : findCycle lateImport.modules = .ok none := by decide +kernel
  have hstop : stopOf (lateImport.run 20 true (State.initial (.queue []) (.steady 0))) =
      some (.failure (.noSuchExport "Deep" "pearl")) := by decide +kernel
  obtain ⟨s, hrun⟩ := eq_error_of_stopOf hstop
  obtain ⟨hno, hrest⟩ := run_finds_modules lateImport hmain hmissing 20 true _ _ _ s hrun
  exact ⟨hmain, hmissing, hcycle, _, s, hrun, rfl, hno, hrest hcycle⟩

end Thicket
