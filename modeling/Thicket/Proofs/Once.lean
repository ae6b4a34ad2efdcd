import Thicket.Host.Native
import Thicket.Proofs.Along
/-!
# How often a module is run

A module counts as run once its exports are kept, which is after its body has ended.  Until then an import from it runs
it again.  So a module is run at most once exactly as long as none is started while it is being run
(`run_once_iff_not_reenters`).  The check for cycles of imports rules that out where imports stand outside functions.
It does not where a function imports: the function can be handed, in an object, to the very module that it imports from,
and be called there (`relay_runs_twice`).
-/
namespace Thicket

/-- No module was started twice, and the exports of none were kept twice. -/
def AtMostOnce (log : List Event) : Prop := ∀ m, starts m log ≤ 1 ∧ keeps m log ≤ 1

/-- A property of kept exports and log that quiet events do not touch holds at the end of a run if it holds wherever the
run may be. -/
theorem Watch.RunEnds.settle {W : Watch} {w : W.World} {main : Module} {begun : State}
    {r : EStateM.Result Stop State Value} (h : W.RunEnds w main begun r) {Q : Table (Table Value) → List Event → Prop}
    (hquiet : ∀ memo log e, Event.Quiet e → Q memo log → Q memo (log ++ [e]))
    (hholds : ∀ memo log, W.Holds w memo log → Q memo log.toList)
    (hstopped : ∀ x s, W.Stopped w x s → Q s.memo s.log.toList) (hbegun : Q begun.memo begun.log.toList) :
    Q (stateOf r).memo (stateOf r).log.toList := by
  cases h with
  | finished hat =>
    show Q _ (Array.push _ _).toList
    rw [Array.toList_push]
    exact hquiet _ _ _ trivial (hholds _ _ hat.holds)
  | @stopped s x hx =>
    have hs := hstopped x s hx
    cases x with
    | failure f =>
      show Q s.memo (s.log.push (.programFailed f)).toList
      rw [Array.toList_push]
      exact hquiet _ _ _ trivial hs
    | fault f => exact hs
    | exhausted => exact hs
  | unstarted => exact hbegun

/-! ## The books at the end of a run -/

theorem begun_log (p : Program) (check : Bool) (input : Input) (clock : Clock) :
    (p.begun check (State.initial input clock)).log.toList =
      (if check then [.noCycle p.modules.length] else []) ++ [.programStarted p.modules.length] := by
  cases check <;> rfl

theorem ledger_begun (p : Program) (check : Bool) (input : Input) (clock : Clock) :
    Ledger [] [] (p.begun check (State.initial input clock)).log.toList := by
  rw [begun_log]
  cases check with
  | false => exact Ledger.empty.idle trivial rfl
  | true => exact (Ledger.empty.idle (e := .noCycle p.modules.length) trivial rfl).idle trivial rfl

theorem orderly_begun {C : List String → Prop} (hnil : C []) (p : Program) (check : Bool) (input : Input)
    (clock : Clock) :
    running (p.begun check (State.initial input clock)).log.toList = [] ∧
      Orderly C (p.begun check (State.initial input clock)).log.toList := by
  rw [begun_log]
  cases check with
  | false => exact ⟨rfl, (Orderly.nil hnil).concat hnil⟩
  | true => exact ⟨rfl, ((Orderly.nil hnil).concat (e := .noCycle p.modules.length) hnil).concat hnil⟩

variable {p : Program} {main : Module} {check : Bool}

theorem run_books (hmain : selectMain p.modules = .ok main) (hmissing : missingImports p.modules = [])
    (hcycle : check = true → findCycle p.modules = .ok none) (fuel : Nat) (input : Input) (clock : Clock) :
    (AtMostOnce (stateOf (p.run fuel check (State.initial input clock))).log.toList ↔
        ¬ Reenters (stateOf (p.run fuel check (State.initial input clock))).log.toList) ∧
      Recorded (stateOf (p.run fuel check (State.initial input clock))).memo
        (stateOf (p.run fuel check (State.initial input clock))).log.toList := by
  have hbegun := ledger_begun p check input clock
  have hstart : ledger.Holds [main.name] []
      ((p.begun check (State.initial input clock)).log.push (.moduleStarted main.name)) := by
    show Ledger _ _ _
    rw [Array.toList_push]
    exact hbegun.start rfl
  have hends := (ledger_lawful p).run_ends hmain hmissing hcycle (fun _ _ => trivial) fuel input clock hstart
  have hsettled : ∀ {chain memo log}, Ledger chain memo log →
      (AtMostOnce log ↔ ¬ Reenters log) ∧ Recorded memo log := fun h => ⟨h.once_iff, h.writes⟩
  refine hends.settle (Q := fun memo log => (AtMostOnce log ↔ ¬ Reenters log) ∧ Recorded memo log)
    (fun memo log e he hQ => ?_) (fun _ _ h => hsettled h) (fun _ _ ⟨_, h⟩ => hsettled h) ?_
  · simp only [AtMostOnce, keeps, Recorded, starts_concat_quiet he, recorded_concat_quiet he, reenters_concat_quiet he]
    exact hQ
  · cases check <;> exact hsettled hbegun

/-- What imports keep true of the modules being run holds of them all along a run, from the first module on. -/
theorem orderly_run_ends {C : List String → Prop} {R : String → String → Prop} (hmain : selectMain p.modules = .ok main)
    (hmissing : missingImports p.modules = []) (hcycle : check = true → findCycle p.modules = .ok none) (hnil : C [])
    (hfirst : C [main.name]) (hstep : ∀ {chain a b}, C chain → a ∈ chain.head? → R a b → C (b :: chain))
    (hbody : main.Follows R) (hmodules : ∀ {name m}, findModule? p.modules name = some m → m.Follows R) (fuel : Nat)
    (input : Input) (clock : Clock) :
    (orderly C R).RunEnds [main.name] main (p.begun check (State.initial input clock))
      (p.run fuel check (State.initial input clock)) := by
  obtain ⟨hrun, hord⟩ := orderly_begun hnil p check input clock
  refine (orderly_lawful hstep hmodules).run_ends hmain hmissing hcycle (orderly_allowed hbody []) fuel input clock ?_
  show running _ = _ ∧ Orderly _ _
  rw [Array.toList_push, running_concat, hrun]
  refine ⟨rfl, hord.concat ?_⟩
  rw [hrun]
  exact hfirst

theorem not_reenters_of_prompt (hmain : selectMain p.modules = .ok main) (hmem : main ∈ p.modules)
    (hmissing : missingImports p.modules = []) (hcycle : findCycle p.modules = .ok none)
    (hprompt : ∀ m ∈ p.modules, prompt m.body = true) (fuel : Nat) (input : Input) (clock : Clock) :
    ¬ Reenters (stateOf (p.run fuel check (State.initial input clock))).log.toList := by
  have hacyclic := acyclic_of_findCycle p.modules hmissing hcycle
  have hnil : Linked (Imports p.modules) [] := ⟨.nil, List.nodup_nil⟩
  have hfollows : ∀ m ∈ p.modules, m.Follows (Imports p.modules) := fun m hm =>
    ⟨hprompt m hm, fun i hi => ⟨m, hm, rfl, hi⟩⟩
  have hfirst : Linked (Imports p.modules) [main.name] :=
    ⟨.singleton _, List.nodup_cons.2 ⟨List.not_mem_nil, List.nodup_nil⟩⟩
  have hends := orderly_run_ends hmain hmissing (fun _ : check = true => hcycle) hnil hfirst
    (fun hchain ha him => hchain.cons hacyclic ha him) (hfollows main hmem)
    (fun hm => hfollows _ (List.mem_of_find?_eq_some hm)) fuel input clock
  refine hends.settle (Q := fun _ log => ¬ Reenters log) (fun memo log e he hQ => ?_) (fun _ _ h => h.2.not_reenters)
    (fun _ _ h => Orderly.not_reenters h) (orderly_begun hnil p check input clock).2.not_reenters
  rw [reenters_concat_quiet he]
  exact hQ

/-- **A module is run at most once exactly as long as none is started while it is being run**, in every run of a program
that passes the check, finished or not.  Where no function imports from a module, that is always so.  What is kept for
the modules at the end is what the log says was written for them; and what the log says was started are the modules that
were run in the course of the program, one after the other. -/
theorem run_once_iff_not_reenters (p : Program) (hmain : p.modules.countP (fun m => m.name = mainName) = 1)
    (hmissing : missingImports p.modules = []) (hcycle : findCycle p.modules = .ok none) (fuel : Nat) (check : Bool)
    (input : Input) (clock : Clock) :
    let s := stateOf (p.run fuel check (State.initial input clock))
    (AtMostOnce s.log.toList ↔ ¬ Reenters s.log.toList) ∧
      ((∀ m ∈ p.modules, prompt m.body = true) → AtMostOnce s.log.toList) ∧ Recorded s.memo s.log.toList ∧
      started s.log.toList = (p.course fuel check (State.initial input clock)).filterMap Begun.module? := by
  intro s
  obtain ⟨main, hselect, hmem, -⟩ := selectMain_of_count hmain
  obtain ⟨hiff, hrec⟩ := run_books hselect hmissing (fun _ => hcycle) fuel input clock
  exact ⟨hiff,
    fun hprompt => hiff.2 (not_reenters_of_prompt hselect hmem hmissing hcycle hprompt fuel input clock), hrec,
    started_run p fuel check (State.initial input clock)⟩

def diamond : Program where
  modules :=
    [⟨"Main", [.importFrom "Left" ["x"], .importFrom "Right" ["y"]], []⟩,
     ⟨"Left", [.importFrom "Deep" ["pearl"], .declare "x", .assign "x" (.ref "pearl")], ["x"]⟩,
     ⟨"Right", [.importFrom "Deep" ["pearl"], .function "y" [] [.giveBack (some (.ref "pearl"))]], ["y"]⟩,
     ⟨"Deep", [.declare "pearl", .assign "pearl" .null], ["pearl"]⟩]
  natives := []

theorem diamond_runs_once :
    diamond.modules.countP (fun m => m.name = mainName) = 1 ∧ missingImports diamond.modules = [] ∧
      findCycle diamond.modules = .ok none ∧ (∀ m ∈ diamond.modules, prompt m.body = true) ∧
      starts "Deep" (stateOf (diamond.run 30 true (State.initial (.queue []) (.steady 0)))).log.toList = 1 ∧
      AtMostOnce (stateOf (diamond.run 30 true (State.initial (.queue []) (.steady 0)))).log.toList := by
  have hmain : diamond.modules.countP (fun m => m.name = mainName) = 1 := by decide
  have hmissing : missingImports diamond.modules = [] := by decide
  have hcycle : findCycle diamond.modules = .ok none := by decide +kernel
  have hprompt : ∀ m ∈ diamond.modules, prompt m.body = true := by decide
  obtain ⟨-, honce, -⟩ := run_once_iff_not_reenters diamond hmain hmissing hcycle 30 true (.queue []) (.steady 0)
  exact ⟨hmain, hmissing, hcycle, hprompt, by decide +kernel, honce hprompt⟩

/-- `Hook` puts a function that imports from `Lib` into the object of `Box`, and the body of `Lib` takes it out and
calls it, the first time that it runs. -/
def relay : Program where
  modules :=
    [⟨"Main", [.importFrom "Hook" ["hook"], .importFrom "Lib" ["x"]], []⟩,
     ⟨"Hook", [.importFrom "Box" ["box"], .function "hook" [] [.importFrom "Lib" ["x"]],
        .setField (.ref "box") "hook" (.ref "hook")], ["hook"]⟩,
     ⟨"Lib", [.importFrom "Native" ["print"], .importFrom "Box" ["box"],
        .run (.call (.ref "print") [.string "Lib runs"]), .declare "x", .assign "x" (.boolean true),
        .branch (.get (.ref "box") "fresh")
          [.setField (.ref "box") "fresh" (.boolean false), .run (.call (.get (.ref "box") "hook") [])] []], ["x"]⟩,
     ⟨"Box", [.declare "box", .assign "box" (.object [("fresh", .boolean true)])], ["box"]⟩]
  natives := standardNatives

/-- **The check does not keep a module from being run twice.** -/
theorem relay_runs_twice :
    relay.modules.countP (fun m => m.name = mainName) = 1 ∧ missingImports relay.modules = [] ∧
      findCycle relay.modules = .ok none ∧ stopOf (relay.run 40 true (State.initial (.queue []) (.steady 0))) = none ∧
      starts "Lib" (stateOf (relay.run 40 true (State.initial (.queue []) (.steady 0)))).log.toList = 2 ∧
      keeps "Lib" (stateOf (relay.run 40 true (State.initial (.queue []) (.steady 0)))).log.toList = 2 := by
  refine ⟨by decide, by decide, ?_, ?_, ?_, ?_⟩ <;> decide +kernel

end Thicket
