import Thicket.Proofs.Relevance
import Thicket.Proofs.Resolution
/-!
# Later modules of a name

A name means its first module (`findModule?`), so a later module of the same name can never run.  It is shadowed, and
without the check it might as well not be there.  The check however reads the text of every module, and an import in a
shadowed one counts like any other: for a module that is missing, and for a cycle, on which the imports of all modules
of a name are taken together.  So a program that would run may be refused for what it could never come to.
-/
namespace Thicket

/-- The modules without those whose name is in `seen` or is that of a module before them. -/
def firstsAfter : List String → List Module → List Module
  | _, [] => []
  | seen, m :: rest =>
    if m.name ∈ seen then firstsAfter seen rest else m :: firstsAfter (m.name :: seen) rest

/-- The modules that are not shadowed. -/
def firsts (modules : List Module) : List Module := firstsAfter [] modules

def Program.unshadowed (p : Program) : Program := { p with modules := firsts p.modules }

theorem firstsAfter_sublist : ∀ (modules : List Module) (seen : List String), (firstsAfter seen modules).Sublist modules
  | [], _ => .refl _
  | m :: rest, seen => by
    rw [firstsAfter]
    split
    · exact (firstsAfter_sublist rest seen).cons m
    · exact (firstsAfter_sublist rest (m.name :: seen)).cons_cons m

theorem findModule?_firstsAfter (name : String) : ∀ (modules : List Module) (seen : List String), name ∉ seen →
    findModule? (firstsAfter seen modules) name = findModule? modules name
  | [], _, _ => rfl
  | m :: rest, seen, hname => by
    have hrec := findModule?_firstsAfter name rest
    unfold findModule? at hrec ⊢
    rw [firstsAfter]
    by_cases hm : m.name = name
    · rw [if_neg (hm ▸ hname), List.find?_cons_of_pos (by simpa using hm), List.find?_cons_of_pos (by simpa using hm)]
    · rw [List.find?_cons_of_neg (by simpa using hm)]
      split
      · exact hrec seen hname
      · rw [List.find?_cons_of_neg (by simpa using hm)]
        exact hrec _ (List.not_mem_cons_of_ne_of_not_mem (Ne.symm hm) hname)

variable {modules : List Module} {p : Program}

theorem mem_of_mem_firsts {m : Module} (h : m ∈ firsts modules) : m ∈ modules :=
  (firstsAfter_sublist modules []).subset h

/-- Every name means the same without the shadowed modules. -/
theorem findModule?_firsts (name : String) : findModule? (firsts modules) name = findModule? modules name :=
  findModule?_firstsAfter name modules [] List.not_mem_nil

theorem countP_main_firsts (h : modules.countP (fun m => m.name = mainName) = 1) :
    (firsts modules).countP (fun m => m.name = mainName) = 1 := by
  refine Nat.le_antisymm (h ▸ (firstsAfter_sublist modules []).countP_le) (List.countP_pos_iff.2 ?_)
  obtain ⟨m, hm, hname⟩ := List.countP_pos_iff.1 (Nat.le_of_eq h.symm)
  obtain ⟨a, ha, haname⟩ := (findModule?_isSome_iff (firsts modules) mainName).1
    (by rw [findModule?_firsts, findModule?_isSome_iff]; exact ⟨m, hm, by simpa using hname⟩)
  exact ⟨a, ha, by simpa using haname⟩

/-! ## What the check says without them -/

theorem missingImports_firsts (h : missingImports modules = []) : missingImports (firsts modules) = [] := by
  rw [missingImports_eq_nil_iff] at h ⊢
  intro m hm i hi
  rw [findModule?_firsts]
  exact h m (mem_of_mem_firsts hm) i hi

theorem acyclic_firsts (h : ∀ a, ¬ Relation.TransGen (Imports modules) a a) (a : String) :
    ¬ Relation.TransGen (Imports (firsts modules)) a a := by
  intro hloop
  refine h a (hloop.lift id fun _ _ hab => ?_)
  obtain ⟨m, hm, hname, hb⟩ := hab
  exact ⟨m, mem_of_mem_firsts hm, hname, hb⟩

theorem Accepted.firsts (h : Accepted modules) : Accepted (firsts modules) := by
  obtain ⟨hmissing, hcycle⟩ := h
  have hmissing' := missingImports_firsts hmissing
  exact ⟨hmissing', findCycle_eq_none _ hmissing' (acyclic_firsts (acyclic_of_findCycle modules hmissing hcycle))⟩

/-- The shadowed modules tell the check nothing new: no module is missing but for them, and no cycle is there but for
them. -/
structure Harmless (modules : List Module) : Prop where
  missing : (∀ m ∈ firsts modules, ∀ i ∈ collectImports m.body, (findModule? modules i).isSome) →
    ∀ m ∈ modules, ∀ i ∈ collectImports m.body, (findModule? modules i).isSome
  cycle : (∀ m ∈ modules, ∀ i ∈ collectImports m.body, (findModule? modules i).isSome) →
    (∀ a, ¬ Relation.TransGen (Imports (firsts modules)) a a) → ∀ a, ¬ Relation.TransGen (Imports modules) a a

/-- The check refuses the modules, with a failure of this code. -/
inductive Refused (modules : List Module) : FailureCode → Prop
  | missing : missingImports modules ≠ [] → Refused modules .noSuchModule
  | cyclic {cycle : List String} : missingImports modules = [] → findCycle modules = .ok (some cycle) →
      Refused modules .circularDependency

theorem refused_or_accepted (modules : List Module) : (∃ code, Refused modules code) ∨ Accepted modules := by
  by_cases hmissing : missingImports modules = []
  · obtain ⟨g, hg, -⟩ := findCycle_eq modules hmissing
    cases hcycle : g.cycle? with
    | none => exact .inr ⟨hmissing, hcycle ▸ hg⟩
    | some cycle => exact .inl ⟨_, .cyclic hmissing (hcycle ▸ hg)⟩
  · exact .inl ⟨_, .missing hmissing⟩

theorem Refused.not_accepted {code : FailureCode} (h : Refused modules code) : ¬ Accepted modules := by
  rintro ⟨hmissing, hnone⟩
  cases h with
  | missing h => exact h hmissing
  | cyclic _ hcycle =>
    rw [hnone] at hcycle
    cases hcycle

theorem refused_noSuchModule_iff : Refused modules .noSuchModule ↔ missingImports modules ≠ [] := by
  refine ⟨fun h => ?_, .missing⟩
  cases h with
  | missing hmissing => exact hmissing

theorem refused_circularDependency_iff (hmissing : missingImports modules = []) :
    Refused modules .circularDependency ↔ ¬ ∀ a, ¬ Relation.TransGen (Imports modules) a a := by
  constructor
  · intro h hacyclic
    cases h with
    | cyclic _ hcycle =>
      rw [findCycle_eq_none modules hmissing hacyclic] at hcycle
      cases hcycle
  · intro hcyclic
    rcases refused_or_accepted modules with ⟨_, h⟩ | ⟨_, hnone⟩
    · cases h with
      | missing h => exact absurd hmissing h
      | cyclic _ hcycle => exact .cyclic hmissing hcycle
    · exact absurd (acyclic_of_findCycle modules hmissing hnone) hcyclic

theorem missingImports_firsts_eq_nil_iff : missingImports (firsts modules) = [] ↔
    ∀ m ∈ firsts modules, ∀ i ∈ collectImports m.body, (findModule? modules i).isSome := by
  simp only [missingImports_eq_nil_iff, findModule?_firsts]

/-- **The check says the same without the shadowed modules exactly when they are harmless.** -/
theorem harmless_iff_refused : Harmless modules ↔ ∀ code, Refused modules code ↔ Refused (firsts modules) code := by
  constructor
  · intro h code
    have hmissing : missingImports (firsts modules) = [] ↔ missingImports modules = [] :=
      ⟨fun hnil => (missingImports_eq_nil_iff modules).2 (h.missing (missingImports_firsts_eq_nil_iff.1 hnil)),
        missingImports_firsts⟩
    by_cases hnil : missingImports modules = []
    · have hcycle : Refused modules .circularDependency ↔ Refused (firsts modules) .circularDependency := by
        rw [refused_circularDependency_iff hnil, refused_circularDependency_iff (hmissing.2 hnil)]
        exact not_congr ⟨acyclic_firsts, h.cycle ((missingImports_eq_nil_iff modules).1 hnil)⟩
      constructor
      · intro hcode
        cases hcode with
        | missing hne => exact absurd hnil hne
        | cyclic h₁ h₂ => exact hcycle.1 (.cyclic h₁ h₂)
      · intro hcode
        cases hcode with
        | missing hne => exact absurd (hmissing.2 hnil) hne
        | cyclic h₁ h₂ => exact hcycle.2 (.cyclic h₁ h₂)
    · constructor
      · intro hcode
        cases hcode with
        | missing hne => exact .missing fun h => hne (hmissing.1 h)
        | cyclic h₁ _ => exact absurd h₁ hnil
      · intro hcode
        cases hcode with
        | missing _ => exact .missing hnil
        | cyclic h₁ _ => exact absurd (hmissing.1 h₁) hnil
  · intro h
    have hmissing := h .noSuchModule
    rw [refused_noSuchModule_iff, refused_noSuchModule_iff, not_iff_not] at hmissing
    refine ⟨fun hfirsts => ?_, fun hall hacyclic => ?_⟩
    · exact (missingImports_eq_nil_iff modules).1 (hmissing.2 (missingImports_firsts_eq_nil_iff.2 hfirsts))
    · have hnil := (missingImports_eq_nil_iff modules).2 hall
      have hcycle := h .circularDependency
      rw [refused_circularDependency_iff hnil, refused_circularDependency_iff (hmissing.1 hnil), not_iff_not] at hcycle
      exact hcycle.2 hacyclic

/-! ## What is told of a run -/

/-- How a run ends, seen from outside: with a value and the objects in it, with a failure of some code, or without. -/
inductive Upshot where
  | gave (v : Value) (store : Store)
  | failed (code : FailureCode)
  | broken (f : Fault)
  | exhausted

/-- The answer of a run, and what it has written. -/
def upshotOf : EStateM.Result Stop State Value → Upshot × String
  | .ok v s => (.gave v s.store, s.output)
  | .error (.failure f) s => (.failed f.code, s.output)
  | .error (.fault f) s => (.broken f, s.output)
  | .error .exhausted s => (.exhausted, s.output)

theorem upshotOf_congr {r r' : EStateM.Result Stop State Value} (h : outcomeOf r = outcomeOf r')
    (hstate : (stateOf r).Beside (stateOf r')) : upshotOf r = upshotOf r' := by
  obtain ⟨log, hlog⟩ := hstate
  cases r with
  | ok v s =>
    cases r' with
    | ok v' s' =>
      cases h
      cases hlog
      rfl
    | error x s' => cases h
  | error x s =>
    cases r' with
    | ok v' s' => cases h
    | error x' s' =>
      cases h
      cases hlog
      cases x <;> rfl

theorem Refused.upshot {code : FailureCode} (h : Refused p.modules code)
    (hmain : p.modules.countP (fun m => m.name = mainName) = 1) (fuel : Nat) (input : Input) (clock : Clock) :
    upshotOf (p.run fuel true (State.initial input clock)) = (.failed code, "") := by
  obtain ⟨main, hselect, -, -⟩ := selectMain_of_count hmain
  cases h with
  | missing hne =>
    obtain ⟨⟨importer, imported⟩, rest, hcons⟩ := List.exists_cons_of_ne_nil hne
    rw [Program.run_of_failure (Program.steps_of_missing hselect hcons fuel _)]
    rfl
  | cyclic hmissing hcycle =>
    rw [Program.run_of_failure (Program.steps_of_cycle hselect hmissing hcycle fuel _)]
    rfl

/-- A run ends with a code of the check only if the check has refused the program. -/
theorem refused_of_upshot {code : FailureCode} (hmain : p.modules.countP (fun m => m.name = mainName) = 1)
    (hcode : code = .noSuchModule ∨ code = .circularDependency) (fuel : Nat) (input : Input) (clock : Clock)
    (h : (upshotOf (p.run fuel true (State.initial input clock))).1 = .failed code) : Refused p.modules code := by
  obtain ⟨main, hselect, hmem, -⟩ := selectMain_of_count hmain
  rcases refused_or_accepted p.modules with ⟨code', hrefused⟩ | ⟨hmissing, hcycle⟩
  · rw [hrefused.upshot hmain] at h
    cases h
    exact hrefused
  · cases hrun : p.run fuel true (State.initial input clock) with
    | ok v s =>
      rw [hrun] at h
      cases h
    | error x s =>
      rw [hrun] at h
      cases x with
      | failure f =>
        obtain ⟨hno, -, -, hcircular⟩ := (local_of_run hselect hmem hmissing (fun _ => hcycle) hrun).code_ne
        cases h
        exact absurd hcode (not_or.2 ⟨hno, hcircular⟩)
      | fault _ | exhausted => cases h

theorem unshadowed_alike {check : Bool} (hmain : p.modules.countP (fun m => m.name = mainName) = 1)
    (hcheck : check = true → Accepted p.modules) : p.Alike check p.unshadowed check :=
  alike_of_sameReachable hmain (countP_main_firsts hmain) (fun name _ => findModule?_firsts name) hcheck
    fun h => (hcheck h).firsts

/-- **Shadowed modules change nothing but what the check says.**  With them and without them a checked run answers the
same, and writes the same, exactly when they are harmless, whatever the host, the input and the clock.  When they are
not, the program with them is refused, and nothing is written.  An accepted program is accepted without them too, and
does the same, and so does any program that is run unchecked. -/
theorem run_unshadowed_iff (p : Program) (hmain : p.modules.countP (fun m => m.name = mainName) = 1) :
    (∀ fuel input clock, upshotOf (p.run fuel true (State.initial input clock)) =
        upshotOf (p.unshadowed.run fuel true (State.initial input clock)) ↔ Harmless p.modules) ∧
      (¬ Harmless p.modules → ∃ code, (code = .noSuchModule ∨ code = .circularDependency) ∧
        ∀ fuel input clock, upshotOf (p.run fuel true (State.initial input clock)) = (.failed code, "")) ∧
      (Accepted p.modules → Accepted p.unshadowed.modules ∧ p.Alike true p.unshadowed true) ∧
      p.Alike false p.unshadowed false := by
  have hmain' : p.unshadowed.modules.countP (fun m => m.name = mainName) = 1 := countP_main_firsts hmain
  refine ⟨fun fuel input clock => ?_, fun hharm => ?_,
    fun haccepted => ⟨haccepted.firsts, unshadowed_alike hmain fun _ => haccepted⟩,
    unshadowed_alike hmain fun h => by cases h⟩
  · rw [harmless_iff_refused]
    constructor
    · intro heq code
      constructor
      · intro hcode
        refine refused_of_upshot (p := p.unshadowed) hmain' ?_ fuel input clock ?_
        · cases hcode <;> simp
        · rw [← heq, hcode.upshot hmain]
      · intro hcode
        refine refused_of_upshot hmain ?_ fuel input clock ?_
        · cases hcode <;> simp
        · rw [heq, Refused.upshot (p := p.unshadowed) hcode hmain']
    · intro hsame
      rcases refused_or_accepted p.modules with ⟨code, hcode⟩ | haccepted
      · rw [hcode.upshot hmain, Refused.upshot (p := p.unshadowed) ((hsame code).1 hcode) hmain']
      · obtain ⟨houtcome, hstate⟩ := unshadowed_alike hmain (fun _ => haccepted) fuel input clock
        exact upshotOf_congr houtcome hstate
  · rcases refused_or_accepted p.modules with ⟨code, hcode⟩ | haccepted
    · exact ⟨code, by cases hcode <;> simp, hcode.upshot hmain⟩
    · refine absurd (harmless_iff_refused.2 fun code => ?_) hharm
      exact ⟨fun h => absurd haccepted h.not_accepted, fun h => absurd haccepted.firsts h.not_accepted⟩

/-- The second `Lib` would import from `Main`, if it could run. -/
def backdoor : Program where
  modules :=
    [⟨"Main", [.importFrom "Lib" ["x"], .giveBack (some (.ref "x"))], []⟩,
     ⟨"Lib", [.declare "x", .assign "x" (.boolean true)], ["x"]⟩,
     ⟨"Lib", [.importFrom "Main" []], []⟩]
  natives := []

theorem backdoor_refused :
    backdoor.modules.countP (fun m => m.name = mainName) = 1 ∧ ¬ Harmless backdoor.modules ∧
      (∃ code, (code = .noSuchModule ∨ code = .circularDependency) ∧
        ∀ fuel input clock, upshotOf (backdoor.run fuel true (State.initial input clock)) = (.failed code, "")) ∧
      backdoor.Alike false backdoor.unshadowed false := by
  have hmain : backdoor.modules.countP (fun m => m.name = mainName) = 1 := by decide
  have hmissing : missingImports backdoor.modules = [] := by decide
  have hfirsts : Accepted (firsts backdoor.modules) := ⟨by decide, by decide +kernel⟩
  have hharm : ¬ Harmless backdoor.modules := by
    intro h
    have hacyclic := h.cycle ((missingImports_eq_nil_iff _).1 hmissing) (acyclic_of_findCycle _ hfirsts.1 hfirsts.2)
    have hlib : Imports backdoor.modules "Main" "Lib" := ⟨_, List.mem_cons_self, rfl, by decide⟩
    have hback : Imports backdoor.modules "Lib" "Main" :=
      ⟨_, List.mem_cons_of_mem _ (List.mem_cons_of_mem _ List.mem_cons_self), rfl, by decide⟩
    exact hacyclic "Main" (.tail (.single hlib) hback)
  obtain ⟨-, hrefused, -, halike⟩ := run_unshadowed_iff backdoor hmain
  exact ⟨hmain, hharm, hrefused hharm, halike⟩

/-- The second `Lib` would import from a module that is not there. -/
def ghostly : Program where
  modules := [⟨"Main", [], []⟩, ⟨"Lib", [], []⟩, ⟨"Lib", [.importFrom "Ghost" []], []⟩]
  natives := []

/-- With a shadowed module the run fails, and without it there is a value. -/
theorem shadowed_module_refuses :
    ghostly.modules.countP (fun m => m.name = mainName) = 1 ∧
      upshotOf (ghostly.run 20 true (State.initial (.queue []) (.steady 0))) = (.failed .noSuchModule, "") ∧
      ∃ store, upshotOf (ghostly.unshadowed.run 20 true (State.initial (.queue []) (.steady 0))) =
        (.gave .null store, "") := by
  have hmain : ghostly.modules.countP (fun m => m.name = mainName) = 1 := by decide
  have hmissing : Refused ghostly.modules .noSuchModule := .missing (by decide)
  have haccepted : Accepted ghostly.unshadowed.modules := ⟨by decide, by decide +kernel⟩
  have hselect : selectMain ghostly.unshadowed.modules = .ok ⟨"Main", [], []⟩ := rfl
  refine ⟨hmain, hmissing.upshot hmain 20 _ _, ?_⟩
  rw [Program.run_of_checked hselect fun _ => haccepted]
  exact ⟨_, rfl⟩

end Thicket
