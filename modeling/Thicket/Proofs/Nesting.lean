import Mathlib.Data.List.Nodup
import Mathlib.Data.List.Perm.Subperm
import Thicket.Proofs.Once
/-!
# How deep modules are nested

While the body of a module runs, an import in it may start another, and so on inwards.  Where no function imports from a
module, only the innermost module can make the next import, whatever functions of other modules it calls.  So the chain
of modules being run is a path along the imports as they stand in the text, from the first module on
(`nested_along_run`), and without a cycle of imports it is never longer than there are names of modules.

The chain is read off the log.  It is the nesting of the runs themselves: a module that ends well leaves the chain as it
was when it was started (`running_of_runModule`).
-/
namespace Thicket

/-- The module that the first name means has an import from the second in its text. -/
def ImportsFrom (modules : List Module) (a b : String) : Prop :=
  ∃ m, findModule? modules a = some m ∧ b ∈ collectImports m.body

theorem ImportsFrom.imports {modules : List Module} {a b : String} (h : ImportsFrom modules a b) :
    Imports modules a b := by
  obtain ⟨m, hm, hb⟩ := h
  exact ⟨m, List.mem_of_find?_eq_some hm, findModule?_name hm, hb⟩

/-- What is said of the modules being run, outermost first. -/
structure Nested (p : Program) (chain : List String) : Prop where
  first : ∀ a ∈ chain.head?, a = mainName
  imports : chain.IsChain (ImportsFrom p.modules)
  nodup : chain.Nodup
  depth : chain.length ≤ p.moduleNames.length

/-! ## One import further in -/

/-- The same from the inside: innermost first, as the log has it. -/
structure Inward (p : Program) (chain : List String) : Prop where
  linked : Linked (ImportsFrom p.modules) chain
  last : ∀ a ∈ chain.getLast?, a = mainName
  known : ∀ a ∈ chain, a ∈ p.moduleNames

namespace Inward

variable {p : Program} {chain : List String}

theorem nil : Inward p [] := ⟨⟨.nil, List.nodup_nil⟩, fun _ h => (by cases h), fun _ h => (by cases h)⟩

theorem mem_moduleNames {m : Module} {name : String} (h : findModule? p.modules name = some m) :
    name ∈ p.moduleNames := by
  rw [Program.moduleNames, mem_foldl_addName, List.mem_map]
  exact .inr ⟨m, List.mem_of_find?_eq_some h, findModule?_name h⟩

theorem cons (hmissing : missingImports p.modules = []) (hcycle : findCycle p.modules = .ok none) {a b : String}
    (h : Inward p chain) (ha : a ∈ chain.head?) (hab : ImportsFrom p.modules a b) : Inward p (b :: chain) := by
  have hle : ImportsFrom p.modules ≤ Imports p.modules := fun _ _ => ImportsFrom.imports
  have hacyclic : ∀ m, ¬ Relation.TransGen (ImportsFrom p.modules) m m := fun m hm =>
    acyclic_of_findCycle p.modules hmissing hcycle m (Relation.TransGen.mono hle m m hm)
  refine ⟨h.linked.cons hacyclic ha hab, ?_, List.forall_mem_cons.2 ⟨?_, h.known⟩⟩
  · cases chain with
    | nil => cases ha
    | cons c rest =>
      rw [List.getLast?_cons_cons]
      exact h.last
  · obtain ⟨m, hm, hb⟩ := hab
    have hfound := (missingImports_eq_nil_iff p.modules).1 hmissing m (List.mem_of_find?_eq_some hm) b hb
    obtain ⟨n, hn⟩ := Option.isSome_iff_exists.1 hfound
    exact mem_moduleNames hn

theorem tail (h : Inward p chain) : Inward p chain.tail := by
  refine ⟨⟨h.linked.1.tail, h.linked.2.tail⟩, ?_, fun a ha => h.known a (List.mem_of_mem_tail ha)⟩
  match chain, h with
  | [], _ | [_], _ => exact fun _ ha => by cases ha
  | _ :: c :: rest, h => exact h.last

theorem nested (h : Inward p chain) : Nested p chain.reverse where
  first := by
    rw [List.head?_reverse]
    exact h.last
  imports := List.isChain_reverse.2 h.linked.1
  nodup := List.nodup_reverse.2 h.linked.2
  depth := by
    rw [List.length_reverse]
    exact (List.subperm_of_subset h.linked.2 h.known).length_le

end Inward

theorem Orderly.quiet {C : List String → Prop} (htail : ∀ chain, C chain → C chain.tail) {log : List Event} {e : Event}
    (he : e.Quiet) (h : Orderly C log) : Orderly C (log ++ [e]) := by
  have hnow : C (running log) := h log [] (List.append_nil log).symm
  refine h.concat ?_
  cases e with
  | moduleStarted | exportsKept => exact he.elim
  | moduleFinished => exact htail _ hnow
  | _ => exact hnow

/-! ## The chain is the nesting of the runs -/

/-- Nothing but the chain is watched, and nothing is asked of the program. -/
def chained : Watch where
  World := List String
  Body _ := True
  Allowed _ _ := True
  Holds chain _ log := running log.toList = chain
  Stopped _ _ _ := True

theorem chained_lawful (p : Program) : chained.Lawful p where
  stop _ _ := trivial
  fault _ _ := trivial
  empty := trivial
  body _ _ _ := trivial
  function _ := trivial
  branch _ := ⟨fun _ _ => trivial, fun _ _ => trivial⟩
  loop _ _ _ := trivial
  missing _ _ _ _ := trivial
  enters := by
    intro chain m names s h _ _ _ _
    refine ⟨m.name :: chain, ?_, fun _ _ => trivial, fun _ _ _ hx => hx, fun s' exports _ h' _ => ?_⟩
    · show running _ = _
      rw [Array.toList_push, running_concat, show running s.log.toList = chain from h]
      rfl
    · show running _ = _
      rw [Array.toList_push, Array.toList_push, running_concat, running_concat,
        show running s'.log.toList = m.name :: chain from h']
      rfl

theorem running_of_runModule {p : Program} {n : Nat} {m : Module} {s s' : State} {r : Finished}
    (h : runModule p n m s = .ok r s') : running s'.log.toList = running s.log.toList := by
  have hat : chained.At (m.name :: running s.log.toList) (s.started m) := by
    refine .of_holds (fun _ => trivial) ?_
    show running (s.log.push (.moduleStarted m.name)).toList = _
    rw [Array.toList_push, running_concat]
    rfl
  have hended := (chained_lawful p).runModule_ended hat (fun _ _ => trivial) n
  rw [h] at hended
  obtain ⟨s₁, hs₁, rfl⟩ := hended
  show running (s₁.log.push _).toList = _
  rw [Array.toList_push, running_concat, show running s₁.log.toList = _ from hs₁.holds]
  rfl

/-! ## Along a run -/

section

variable {p : Program} {check : Bool}

theorem inward_along_run (hmissing : missingImports p.modules = []) (hcycle : findCycle p.modules = .ok none)
    (hprompt : ∀ m ∈ p.modules, prompt m.body = true) (fuel : Nat) (input : Input) (clock : Clock) :
    Orderly (Inward p) (stateOf (p.run fuel check (State.initial input clock))).log.toList := by
  cases hmain : selectMain p.modules with
  | error f =>
    rw [Program.run_of_selectMain_error hmain]
    exact (Orderly.nil Inward.nil).concat Inward.nil
  | ok main =>
    have hfind := findModule?_of_selectMain hmain
    have hname : main.name = mainName := findModule?_name hfind
    have hfollows : ∀ {name m}, findModule? p.modules name = some m → m.Follows (ImportsFrom p.modules) :=
      fun hm => ⟨hprompt _ (List.mem_of_find?_eq_some hm), fun i hi => ⟨_, (findModule?_name hm).symm ▸ hm, hi⟩⟩
    have hfirst : Inward p [main.name] := by
      refine ⟨⟨.singleton _, List.nodup_singleton _⟩, ?_, ?_⟩
      · rintro a ⟨⟩
        exact hname
      · rw [List.forall_mem_singleton, hname]
        exact Inward.mem_moduleNames hfind
    have hends := orderly_run_ends hmain hmissing (fun _ : check = true => hcycle) Inward.nil hfirst
      (fun hchain => hchain.cons hmissing hcycle) (hfollows hfind) hfollows fuel input clock
    exact hends.settle (Q := fun _ log => Orderly (Inward p) log)
      (fun _ _ _ he => Orderly.quiet (C := Inward p) (fun _ => Inward.tail) he) (fun _ _ h => h.2) (fun _ _ h => h)
      (orderly_begun Inward.nil p check input clock).2

end

/-- **The modules being run follow the imports.**  Where nothing that is imported is missing, no imports form a cycle
and no function imports from a module, the chain of the modules whose bodies are being run is at every point of a run,
outermost first, a path from the first module along the imports in the texts of the modules, on which no module stands
twice; so it is never longer than there are names of modules.  That is so wherever a job is begun in the course of the
run.  And the chain is that of the runs: each of them adds its module, and takes it off again when it ends well. -/
theorem nested_along_run (p : Program) (hmissing : missingImports p.modules = [])
    (hcycle : findCycle p.modules = .ok none) (hprompt : ∀ m ∈ p.modules, prompt m.body = true) (fuel : Nat)
    (check : Bool) (input : Input) (clock : Clock) :
    (∀ before after, (stateOf (p.run fuel check (State.initial input clock))).log.toList = before ++ after →
      Nested p (running before).reverse) ∧
    (∀ x ∈ p.course fuel check (State.initial input clock), Nested p (running x.state.log.toList).reverse) ∧
    ∀ n m s r s', runModule p n m s = .ok r s' →
      running (s.started m).log.toList = m.name :: running s.log.toList ∧
      running s'.log.toList = running s.log.toList := by
  have hpoint : ∀ before after, (stateOf (p.run fuel check (State.initial input clock))).log.toList = before ++ after →
      Nested p (running before).reverse := fun before after hlog =>
    (inward_along_run hmissing hcycle hprompt fuel input clock before after hlog).nested
  refine ⟨hpoint, fun x hx => ?_, fun n m s r s' h => ⟨?_, running_of_runModule h⟩⟩
  · have hgrows := ((grows_along p).amid State.Grows.remembered).run fuel check (State.initial input clock)
    obtain ⟨after, hlog⟩ := (hgrows.2 x hx).log
    exact hpoint _ after hlog.symm
  · show running (s.log.push (.moduleStarted m.name)).toList = _
    rw [Array.toList_push, running_concat]
    rfl

/-- Every module but the last imports from the next, and calls what it imports while it is being run. -/
def ladder : Program where
  modules :=
    [⟨"Main", [.importFrom "Upper" ["climb"], .run (.call (.ref "climb") [])], []⟩,
     ⟨"Upper", [.importFrom "Lower" ["step"], .function "climb" [] [.giveBack (some (.call (.ref "step") []))],
        .run (.call (.ref "climb") [])], ["climb"]⟩,
     ⟨"Lower", [.importFrom "Ground" ["floor"], .function "step" [] [.giveBack (some (.call (.ref "floor") []))],
        .run (.call (.ref "step") [])], ["step"]⟩,
     ⟨"Ground", [.importFrom "Native" ["print"], .function "floor" [] [.run (.call (.ref "print") [.string "floor"])]],
        ["floor"]⟩]
  natives := standardNatives

theorem ladder_nested :
    missingImports ladder.modules = [] ∧ findCycle ladder.modules = .ok none ∧
      (∀ m ∈ ladder.modules, prompt m.body = true) ∧
      stopOf (ladder.run 30 true (State.initial (.queue []) (.steady 0))) = none ∧
      ∃ before after,
        (stateOf (ladder.run 30 true (State.initial (.queue []) (.steady 0)))).log.toList = before ++ after ∧
        (running before).reverse = ["Main", "Upper", "Lower", "Ground"] ∧ Nested ladder (running before).reverse := by
  have hmissing : missingImports ladder.modules = [] := by decide
  have hcycle : findCycle ladder.modules = .ok none := by decide +kernel
  have hprompt : ∀ m ∈ ladder.modules, prompt m.body = true := by decide
  refine ⟨hmissing, hcycle, hprompt, by decide +kernel, List.take 6 _, List.drop 6 _,
    (List.take_append_drop 6 _).symm, ?_, ?_⟩
  · decide +kernel
  · exact (nested_along_run ladder hmissing hcycle hprompt 30 true (.queue []) (.steady 0)).1 _ _
      (List.take_append_drop 6 _).symm

end Thicket
