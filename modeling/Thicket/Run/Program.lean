import Thicket.Run.Eval
import Thicket.Static.Graph
/-!
# Running a whole program

A program runs its `Main` module.  Unless told otherwise it first makes sure that every imported module is there and
that no chain of imports leads back to where it started.
-/
namespace Thicket

/-- The one module in which the program starts. -/
def selectMain (modules : List Module) : Except Failure Module :=
  match modules.filter fun m => m.name = mainName with
  | [] => .error .noMain
  | [m] => .ok m
  | _ => .error .multipleMains

/-- With exactly one module of that name, a program has a first module. -/
theorem selectMain_of_count {modules : List Module} (h : modules.countP (fun m => m.name = mainName) = 1) :
    ∃ main, selectMain modules = .ok main ∧ main ∈ modules ∧ main.name = mainName := by
  rw [List.countP_eq_length_filter, List.length_eq_one_iff] at h
  obtain ⟨main, hmain⟩ := h
  have hmem : main ∈ modules.filter fun m => m.name = mainName := by rw [hmain]; exact List.mem_singleton_self main
  rw [List.mem_filter] at hmem
  refine ⟨main, ?_, hmem.1, by simpa using hmem.2⟩
  rw [selectMain, hmain]

/-- The first module of a program is the one that its name means. -/
theorem findModule?_of_selectMain {modules : List Module} {main : Module} (h : selectMain modules = .ok main) :
    findModule? modules mainName = some main := by
  unfold findModule?
  rw [← List.head?_filter]
  unfold selectMain at h
  split at h
  · cases h
  · rename_i m hmains
    cases h
    rw [hmains, List.head?_cons]
  · cases h

/-- Looks for a cycle of imports and puts the answer on record. -/
def searchCycle (modules : List Module) : Run (Option (List String)) := do
  match ← Run.ofFault (findCycle modules) with
  | some cycle =>
    Run.record (.cycleFound cycle)
    return some cycle
  | none =>
    Run.record (.noCycle modules.length)
    return none

/-- Fails on the first import of a module that is not there, and on a cycle of imports. -/
def checkModules (modules : List Module) : Run Unit := do
  match missingImports modules with
  | (importer, imported) :: _ =>
    Run.record (.unknownImport importer imported)
    Run.fail (.noSuchModule imported)
  | [] =>
    match ← searchCycle modules with
    | some cycle => Run.fail (.circularDependency cycle)
    | none => pure ()

namespace Program

/-- What a program does, from the choice of its first module on. -/
def steps (p : Program) (fuel : Nat) (check : Bool) : Run Value := do
  match selectMain p.modules with
  | .error f => Run.fail f
  | .ok main =>
    if check then checkModules p.modules
    Run.record (.programStarted p.modules.length)
    let finished ← runModule p fuel main
    return finished.result.getD .null

/-- Runs a program to the value that its first module returns, null if it returns none.  A failure goes on record. -/
def run (p : Program) (fuel : Nat) (check : Bool) : Run Value := fun s =>
  match p.steps fuel check s with
  | .error (.failure f) s => .error (.failure f) { s with log := s.log.push (.programFailed f) }
  | other => other

/-- What is known about a module of the program. -/
inductive Entry where
  | notEvaluated (m : Module)
  | evaluated (m : Module) (exports : Table Value)

/-- The state of the module that a name means. -/
def entry? (p : Program) (s : State) (name : String) : Option Entry :=
  match findModule? p.modules name with
  | none => none
  | some m =>
    match Table.get? s.memo name with
    | some exports => some (.evaluated m exports)
    | none => some (.notEvaluated m)

def isEvaluated (p : Program) (s : State) (name : String) : Bool :=
  match p.entry? s name with
  | some (.evaluated _ _) => true
  | _ => false

/-- The names of the modules, each once, in the order of the program. -/
def moduleNames (p : Program) : List String := (p.modules.map Module.name).foldl addName []

end Program
end Thicket
