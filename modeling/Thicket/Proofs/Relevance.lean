import Mathlib.Data.List.Nodup
import Thicket.Host.Native
import Thicket.Proofs.Watch
/-!
# Modules that are never reached

A run can come to a module only by imports, and the imports that it can come to stand in the text of modules that it has
come to before, be it in a function that is called much later and somewhere else.  So all that matters are the modules
to which the imports in the text lead from the first module (`Reachable`).  Two programs with the same host that agree
on these do the same, step for step: the rest may be there or not, and in any order.
-/
namespace Thicket

/-! ## What imports lead to -/

/-- The names to which imports lead from the first module, always through the first module of a name. -/
inductive Reachable (modules : List Module) : String → Prop
  | main : Reachable modules mainName
  | imported {a b : String} {m : Module} : Reachable modules a → findModule? modules a = some m →
      b ∈ collectImports m.body → Reachable modules b

/-- Every reachable name means the same module in both lists, or none in either. -/
def SameReachable (modules modules' : List Module) : Prop :=
  ∀ name, Reachable modules name → findModule? modules' name = findModule? modules name

/-- All imports that may run lead to reachable names. -/
def reach (modules : List Module) : Watch where
  World := Unit
  Body body := ∀ i ∈ importsOf body, Reachable modules i
  Allowed _ st := ∀ i ∈ st.imports, Reachable modules i
  Holds _ _ _ := True
  Stopped _ _ _ := True

theorem reach_body {modules : List Module} {m : Module} {name : String} (h : Reachable modules name)
    (hm : findModule? modules name = some m) : ∀ st ∈ m.body, ∀ i ∈ st.imports, Reachable modules i :=
  forall_mem_importsOf.1 fun i hi => h.imported hm ((mem_collectImports m.body i).2 hi)

theorem reach_lawful (p : Program) : (reach p.modules).Lawful p where
  stop _ _ := trivial
  fault _ _ := trivial
  empty := fun _ hi => by cases hi
  body h := forall_mem_importsOf.1 h
  function h := h
  branch h :=
    ⟨forall_mem_importsOf.1 fun i hi => h i (List.mem_append_left _ hi),
      forall_mem_importsOf.1 fun i hi => h i (List.mem_append_right _ hi)⟩
  loop h := forall_mem_importsOf.1 h
  missing _ _ _ _ := trivial
  enters := by
    intro w m names s _ himp hs hm _
    have hreach : Reachable p.modules m.name := himp m.name (by simp [Stmt.imports, hs])
    exact ⟨(), trivial, reach_body hreach hm, fun _ _ _ _ => trivial, fun _ _ _ _ _ => trivial⟩

theorem reach_agree (p : Program) {modules : List Module} (h : SameReachable p.modules modules) :
    (reach p.modules).Agree p { p with modules := modules } where
  natives := rfl
  modules himp hs := h _ (himp _ (by simp [Stmt.imports, hs]))

/-! ## Whole runs -/

/-- The modules pass the check that a program makes before it runs. -/
def Accepted (modules : List Module) : Prop := missingImports modules = [] ∧ findCycle modules = .ok none

/-- With any fuel, any input and any clock the two programs give the same value or stop for the same cause, and leave
the same state, but for the log: the same output written, the same input left, the same objects.  Since it is so with
any fuel, they also both go on forever or both end. -/
def Program.Alike (p : Program) (check : Bool) (q : Program) (check' : Bool) : Prop :=
  ∀ fuel input clock,
    outcomeOf (p.run fuel check (State.initial input clock)) =
        outcomeOf (q.run fuel check' (State.initial input clock)) ∧
      (stateOf (p.run fuel check (State.initial input clock))).Beside
        (stateOf (q.run fuel check' (State.initial input clock)))

theorem begun_beside (p q : Program) (check check' : Bool) (input : Input) (clock : Clock) :
    (p.begun check (State.initial input clock)).Beside (q.begun check' (State.initial input clock)) := by
  cases check <;> cases check' <;> exact ⟨_, rfl⟩

theorem State.Beside.started {s t : State} (h : s.Beside t) (m : Module) : (s.started m).Beside (t.started m) := by
  obtain ⟨log, rfl⟩ := h
  exact ⟨_, rfl⟩

theorem State.Beside.finished {s t : State} (h : s.Beside t) (m : Module) (exports : Table Value) :
    (s.finished m exports).Beside (t.finished m exports) := by
  obtain ⟨log, rfl⟩ := h
  exact ⟨_, rfl⟩

theorem State.Beside.broken {s t : State} (h : s.Beside t) (x : Stop) : (s.broken x).Beside (t.broken x) := by
  obtain ⟨log, rfl⟩ := h
  cases x <;> exact ⟨_, rfl⟩

variable {p : Program} {modules : List Module} {check check' : Bool}

/-- **Two programs that agree on all that is reachable do the same.** -/
theorem alike_of_sameReachable (hmain : p.modules.countP (fun m => m.name = mainName) = 1)
    (hmain' : modules.countP (fun m => m.name = mainName) = 1) (hsame : SameReachable p.modules modules)
    (hcheck : check = true → Accepted p.modules) (hcheck' : check' = true → Accepted modules) :
    p.Alike check { p with modules := modules } check' := by
  intro fuel input clock
  obtain ⟨main, hselect, -, -⟩ := selectMain_of_count hmain
  obtain ⟨main', hselect', -, -⟩ := selectMain_of_count hmain'
  have hfind := findModule?_of_selectMain hselect
  obtain rfl : main' = main := by
    have hfind' := findModule?_of_selectMain hselect'
    rw [hsame mainName .main, hfind] at hfind'
    exact (Option.some.inj hfind').symm
  have hbegun := begun_beside p { p with modules := modules } check check' input clock
  have hat : (reach p.modules).At () ((p.begun check (State.initial input clock)).started main') := by
    cases check <;> exact ⟨Store.All.empty.newScope none, fun _ hx => (by cases hx), trivial⟩
  have hends := ((reach_lawful p).runs_beside (reach_agree p hsame)).runModule_ends ⟨hbegun.started main', hat⟩
    (fun _ => Watch.Lawful.room) (reach_body .main hfind) fuel
  rw [Program.run_of_checked hselect hcheck, Program.run_of_checked hselect' hcheck']
  generalize runModule p fuel main' (p.begun check (State.initial input clock)) = r at hends
  generalize runModule { p with modules := modules } fuel main' _ = r' at hends
  cases hends with
  | finished _ hst _ _ => exact ⟨rfl, hst.1.finished main' _⟩
  | stopped hx => exact ⟨rfl, hx.1.broken _⟩
  | unstarted => exact ⟨rfl, hbegun⟩

/-! ## The order of modules -/

theorem findModule?_eq_some_iff (hnodup : (modules.map Module.name).Nodup) {name : String} {m : Module} :
    findModule? modules name = some m ↔ m ∈ modules ∧ m.name = name := by
  refine ⟨fun h => ⟨List.mem_of_find?_eq_some h, findModule?_name h⟩, fun ⟨hm, hname⟩ => ?_⟩
  obtain ⟨a, ha⟩ := Option.isSome_iff_exists.1 ((findModule?_isSome_iff modules name).2 ⟨m, hm, hname⟩)
  have hname' : a.name = m.name := (findModule?_name ha).trans hname.symm
  rw [ha, List.inj_on_of_nodup_map hnodup (List.mem_of_find?_eq_some ha) hm hname']

theorem findModule?_perm {modules' : List Module} (h : modules'.Perm modules) (hnodup : (modules.map Module.name).Nodup)
    (name : String) : findModule? modules' name = findModule? modules name := by
  apply Option.ext
  intro m
  rw [findModule?_eq_some_iff hnodup, findModule?_eq_some_iff ((h.map Module.name).nodup_iff.2 hnodup), h.mem_iff]

theorem Accepted.perm {modules' : List Module} (h : Accepted modules) (hperm : modules'.Perm modules)
    (hnodup : (modules.map Module.name).Nodup) : Accepted modules' := by
  obtain ⟨hmissing, hcycle⟩ := h
  have himports : Imports modules' = Imports modules := by
    funext a b
    simp only [Imports, hperm.mem_iff]
  have hmissing' : missingImports modules' = [] := by
    rw [missingImports_eq_nil_iff] at hmissing ⊢
    intro m hm i hi
    rw [findModule?_perm hperm hnodup]
    exact hmissing m (hperm.mem_iff.1 hm) i hi
  refine ⟨hmissing', findCycle_eq_none modules' hmissing' ?_⟩
  rw [himports]
  exact acyclic_of_findCycle modules hmissing hcycle

/-! ## Modules left out -/

theorem findModule?_filter {keep : Module → Bool} {name : String}
    (h : ∀ m ∈ modules, m.name = name → keep m = true) :
    findModule? (modules.filter keep) name = findModule? modules name := by
  unfold findModule?
  rw [List.find?_filter]
  refine List.find?_congr fun m hm => ?_
  by_cases hname : m.name = name
  · simp [hname, h m hm hname]
  · simp [hname]

theorem countP_main_filter {keep : Module → Bool} (h : ∀ m ∈ modules, m.name = mainName → keep m = true) :
    (modules.filter keep).countP (fun m => m.name = mainName) = modules.countP (fun m => m.name = mainName) := by
  rw [List.countP_filter]
  refine List.countP_congr fun m hm => ?_
  by_cases hname : m.name = mainName
  · simp [hname, h m hm hname]
  · simp [hname]

/-- **A run depends only on what imports lead to.**  Two programs with the same host, each with one first module, that
agree on every name to which imports lead, do the same, be they run unchecked or accepted by the check.  In particular
the modules of an accepted program in which no name is there twice may stand in any order, and those to which no import
leads may be left out or put in. -/
theorem run_depends_on_reachable (p : Program) (hmain : p.modules.countP (fun m => m.name = mainName) = 1) :
    (∀ modules check check', modules.countP (fun m => m.name = mainName) = 1 → SameReachable p.modules modules →
        (check = true → Accepted p.modules) → (check' = true → Accepted modules) →
        p.Alike check { p with modules := modules } check') ∧
      (∀ modules check check', modules.Perm p.modules → (p.modules.map Module.name).Nodup → Accepted p.modules →
        Accepted modules ∧ p.Alike check { p with modules := modules } check') ∧
      (∀ keep check check', (∀ m ∈ p.modules, Reachable p.modules m.name → keep m = true) →
        (check = true → Accepted p.modules) → (check' = true → Accepted (p.modules.filter keep)) →
        p.Alike check { p with modules := p.modules.filter keep } check') ∧
      ∀ modules keep check check', modules.filter keep = p.modules →
        (∀ m ∈ modules, Reachable p.modules m.name → keep m = true) →
        (check = true → Accepted p.modules) → (check' = true → Accepted modules) →
        p.Alike check { p with modules := modules } check' := by
  refine ⟨fun modules check check' hmain' hsame hcheck hcheck' => ?_,
    fun modules check check' hperm hnodup haccepted => ?_, fun keep check check' hkeep hcheck hcheck' => ?_,
    fun modules keep check check' hfilter hkeep hcheck hcheck' => ?_⟩
  · exact alike_of_sameReachable hmain hmain' hsame hcheck hcheck'
  · have haccepted' := haccepted.perm hperm hnodup
    exact ⟨haccepted', alike_of_sameReachable hmain ((hperm.countP_eq _).trans hmain)
      (fun name _ => findModule?_perm hperm hnodup name) (fun _ => haccepted) fun _ => haccepted'⟩
  · have hreach : ∀ name, Reachable p.modules name → ∀ m ∈ p.modules, m.name = name → keep m = true :=
      fun name hname m hm heq => hkeep m hm (heq ▸ hname)
    exact alike_of_sameReachable hmain ((countP_main_filter (hreach _ .main)).trans hmain)
      (fun name hname => findModule?_filter (hreach name hname)) hcheck hcheck'
  · have hreach : ∀ name, Reachable p.modules name → ∀ m ∈ modules, m.name = name → keep m = true :=
      fun name hname m hm heq => hkeep m hm (heq ▸ hname)
    refine alike_of_sameReachable hmain ?_ (fun name hname => ?_) hcheck hcheck'
    · rw [← countP_main_filter (hreach _ .main), hfilter]
      exact hmain
    · rw [← findModule?_filter (hreach name hname), hfilter]

/-- `Main` calls a function of `Lib` that imports from `Deep`.  Nothing leads to `Attic`. -/
def cellar : Program where
  modules :=
    [⟨"Main", [.importFrom "Native" ["print"], .importFrom "Lib" ["get"],
        .run (.call (.ref "print") [.call (.ref "get") []])], []⟩,
     ⟨"Attic", [.importFrom "Lib" ["get"]], []⟩,
     ⟨"Lib", [.function "get" [] [.importFrom "Deep" ["pearl"], .giveBack (some (.ref "pearl"))]], ["get"]⟩,
     ⟨"Deep", [.declare "pearl", .assign "pearl" (.boolean true)], ["pearl"]⟩]
  natives := standardNatives

/-- The same in another order, with a later module of the name `Lib` and another in the place of `Attic`. -/
def cellarTidied : List Module :=
  [⟨"Deep", [.declare "pearl", .assign "pearl" (.boolean true)], ["pearl"]⟩,
   ⟨"Lib", [.function "get" [] [.importFrom "Deep" ["pearl"], .giveBack (some (.ref "pearl"))]], ["get"]⟩,
   ⟨"Main", [.importFrom "Native" ["print"], .importFrom "Lib" ["get"],
      .run (.call (.ref "print") [.call (.ref "get") []])], []⟩,
   ⟨"Lib", [], []⟩,
   ⟨"Shed", [.importFrom "Main" []], []⟩]

theorem reachable_cellar {name : String} (h : Reachable cellar.modules name) : name ∈ ["Main", "Lib", "Deep"] := by
  induction h with
  | main => decide
  | @imported a b m _ hm hb ih =>
    simp only [List.mem_cons, List.not_mem_nil, or_false] at ih
    rcases ih with rfl | rfl | rfl <;> cases hm <;> revert hb <;> decide +revert

theorem cellarTidied_alike :
    cellar.modules.countP (fun m => m.name = mainName) = 1 ∧ cellarTidied.countP (fun m => m.name = mainName) = 1 ∧
      SameReachable cellar.modules cellarTidied ∧ Accepted cellar.modules ∧ Accepted cellarTidied ∧
      cellar.Alike true { cellar with modules := cellarTidied } true ∧
      (stateOf (cellar.run 20 true (State.initial (.queue []) (.steady 0)))).output = "true\n" := by
  have hmain : cellar.modules.countP (fun m => m.name = mainName) = 1 := by decide
  have hmain' : cellarTidied.countP (fun m => m.name = mainName) = 1 := by decide
  have hsame : SameReachable cellar.modules cellarTidied := by
    intro name hname
    have hnames := reachable_cellar hname
    simp only [List.mem_cons, List.not_mem_nil, or_false] at hnames
    rcases hnames with rfl | rfl | rfl <;> rfl
  have haccepted : Accepted cellar.modules := ⟨by decide, by decide +kernel⟩
  have haccepted' : Accepted cellarTidied := ⟨by decide, by decide +kernel⟩
  obtain ⟨halike, -, -, -⟩ := run_depends_on_reachable cellar hmain
  exact ⟨hmain, hmain', hsame, haccepted, haccepted',
    halike cellarTidied true true hmain' hsame (fun _ => haccepted) (fun _ => haccepted'), by decide +kernel⟩

end Thicket
