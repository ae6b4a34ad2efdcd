import Thicket.Proofs.Fuel
import Thicket.Proofs.RoundTrip
import Thicket.Proofs.Standard
/-!
# A loaded program answers

A program that was loaded from a document and runs with the standard host ends, if it ends, with a value or with a
failure of the language (`loaded_answers`).  Nothing breaks it off from outside.  Four things could: a label that the
evaluator does not know; a graph of imports that cannot be built; a function of the host whose answer is not of the kind
that it declares; and a value of the host's making that is none of these functions and does something else.

The evaluator looks every label up in tables of its own, and so does the reader of documents.  That the first have all
that the second have is shown here (`known_of_written`).

What a program does is here what it does with any fuel that is enough.
-/
namespace Thicket

/-! ## Labels that documents have -/

/-- The evaluator has something to do for this label: its operator answers or fails, whatever the operands. -/
def Label.Handled : Label → Prop
  | binary op => ∀ s l r f, op.apply s l r ≠ .error (.fault f)
  | unary op => ∀ v f, op.apply v ≠ .error (.fault f)
  | kind _ => False

theorem not_local_fault (f : Fault) : ¬ (Stop.fault f).Local := id

theorem Label.Known.handled {x : Label} (h : x.Known) : x.Handled := by
  cases x with
  | binary op =>
    intro s l r f hf
    rcases BinaryOp.stop_of_apply hf with hlocal | ⟨hunknown, -⟩
    · exact not_local_fault f hlocal
    · exact hunknown h
  | unary op =>
    intro v f hf
    rcases UnaryOp.stop_of_apply hf with hlocal | ⟨hunknown, -⟩
    · exact not_local_fault f hlocal
    · exact hunknown h
  | kind name => exact h

/-- **The evaluator knows every label that a document may have.** -/
theorem known_of_written {x : Label} (h : x.Written) : x.Known := by
  have hbinary : ∀ name ∈ binaryOperators, name ∈ BinaryOp.names := by decide
  have hunary : ∀ name ∈ unaryOperators, name ∈ UnaryOp.names := by decide
  cases x with
  | binary op => exact hbinary op.name h
  | unary op => exact hunary op.name h
  | kind name => exact h

theorem known_of_modules {modules : List Module} (h : ∀ m ∈ modules, m.Written) {natives : List NativeFunction}
    {x : Label} (hx : Program.Has ⟨modules, natives⟩ x) : x.Known := by
  obtain ⟨m, hm, hx⟩ := hx
  exact known_of_written (h m hm x hx)

/-! ## Whole runs -/

/-- Both inputs are one. -/
def sameInput : Feed where
  Alike i j := i = j
  next := by
    rintro i _ rfl
    exact ⟨rfl, rfl⟩

theorem run_faultless {p : Program} (hnatives : p.natives = standardNatives) (hknown : ∀ x, p.Has x → x.Known)
    (check : Bool) (fuel : Nat) (input : Input) (clock : Clock) (f : Fault) :
    stopOf (p.run fuel check (State.initial input clock)) ≠ some (.fault f) := by
  intro hstop
  obtain ⟨x, hx, hunknown, -⟩ :=
    (Feed.run_matches (F := sameInput) (i := input) hnatives check fuel clock rfl).answersFor _ hstop
  exact hunknown (hknown x hx)

/-- **A loaded program answers.**  For every operator and every kind of node in a document that was loaded the evaluator
has something to do.  And with the standard host, whatever the input and the clock, with the check or without, a run
that does not run out of fuel ends with a value or with a failure of the language, and does just the same with any more
fuel. -/
theorem loaded_answers (doc : Json) (modules : List Module) (hload : loadModules doc = .ok modules) (clock : Clock)
    (input : Input) (check : Bool) :
    let p : Program := ⟨modules, standardNatives⟩
    let s := State.initial input clock
    (∀ x, p.Has x → x.Handled) ∧
      ∀ fuel, stopOf (p.run fuel check s) ≠ some .exhausted →
        ((∃ v, outcomeOf (p.run fuel check s) = .ok v) ∨ ∃ f, outcomeOf (p.run fuel check s) = .error (.failure f)) ∧
        ∀ more, fuel ≤ more → p.run more check s = p.run fuel check s := by
  intro p s
  have hknown : ∀ x, p.Has x → x.Known := fun x hx => known_of_modules (written_of_loadModules doc modules hload) hx
  refine ⟨fun x hx => (hknown x hx).handled, fun fuel hstop =>
    ⟨?_, fun more hmore => p.run_eq_of_le check _ hmore hstop⟩⟩
  have hfaultless := run_faultless (p := p) rfl hknown check fuel input clock
  change ∀ f, stopOf (p.run fuel check s) ≠ some (.fault f) at hfaultless
  generalize p.run fuel check s = r at hstop hfaultless
  cases r with
  | ok v s => exact .inl ⟨v, rfl⟩
  | error x s =>
    cases x with
    | failure f => exact .inr ⟨f, rfl⟩
    | fault f => exact absurd rfl (hfaultless f)
    | exhausted => exact absurd rfl hstop

/-- A function of the host is called under another name, and then returned. -/
def errand : List Module :=
  [⟨"Main",
    [.importFrom "Native" ["print", "readString"], .declare "ask", .assign "ask" (.ref "readString"),
      .run (.call (.ref "print") [.unary ⟨"not"⟩ (.binary ⟨"equals"⟩ (.call (.ref "ask") []) .null)]),
      .giveBack (some (.ref "ask"))], []⟩]

theorem errand_answers :
    let doc : Json := .arr (moduleDocuments (fun _ => false) 0 errand)
    let p : Program := ⟨errand, standardNatives⟩
    let s := State.initial (.queue ["yes"]) (.steady 0)
    loadModules doc = .ok errand ∧ stopOf (p.run 20 true s) ≠ some .exhausted ∧
      (stateOf (p.run 20 true s)).output = "true\n" ∧
      ((∃ v, outcomeOf (p.run 20 true s) = .ok v) ∨ ∃ f, outcomeOf (p.run 20 true s) = .error (.failure f)) := by
  intro doc p s
  have hwritten : ∀ m ∈ errand, m.Written := by
    unfold Module.Written BodyWritten
    decide +kernel
  have hload : loadModules doc = .ok errand := decodeModules_documents (fun _ => false) 0 0 errand hwritten
  have hstop : stopOf (p.run 20 true s) ≠ some .exhausted := by decide +kernel
  exact ⟨hload, hstop, by decide +kernel,
    ((loaded_answers doc errand hload (.steady 0) (.queue ["yes"]) true).2 20 hstop).1⟩

/-- A program that no document says is broken off. -/
example :
    let p : Program := ⟨[⟨"Main", [.run (.binary ⟨"xor"⟩ (.boolean true) (.boolean true))], []⟩], standardNatives⟩
    stopOf (p.run 20 true (State.initial (.queue []) (.steady 0))) = some (.fault (.unexpected "xor")) := by
  decide +kernel

end Thicket
