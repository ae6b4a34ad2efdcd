import Thicket.Failure
import Thicket.Stop
import Thicket.Store
import Thicket.Text.Lines
/-!
# The state of a run

A run changes the store, consumes input and readings of the clock, writes output, remembers the exports of the modules
it has finished, and keeps a log.  What a run does not change, the program itself, is not part of the state.  A run that
stops short keeps the state it has reached.
-/
namespace Thicket

/-- The lines still to be read. -/
inductive Input where
  /-- Lines as they come, with their ends; the ends are taken off as they are read. -/
  | lines (rest : List String)
  /-- Texts handed out exactly as they are. -/
  | queue (rest : List String)

namespace Input

/-- The next line, and the input without it.  Beyond the end every line is empty. -/
def next : Input → String × Input
  | lines [] => ("", lines [])
  | lines (line :: rest) => (Text.chomp line, lines rest)
  | queue [] => ("", queue [])
  | queue (line :: rest) => (line, queue rest)

end Input

/-- What the clock shows, time after time.  Readings may give out, and then a run that asks for another is exhausted. -/
structure Clock where
  reading : Nat → Option Float
  /-- How often the clock was asked. -/
  asked : Nat

namespace Clock

/-- A clock that nobody has asked yet. -/
def ofReadings (reading : Nat → Option Float) : Clock := ⟨reading, 0⟩

/-- A clock that always shows the same. -/
def steady (x : Float) : Clock := ofReadings fun _ => some x

/-- The next reading, and the clock after it. -/
def next (c : Clock) : Option Float × Clock := (c.reading c.asked, { c with asked := c.asked + 1 })

end Clock

/-- What the log records. -/
inductive Event where
  | unknownImport (importer imported : String)
  | cycleFound (cycle : List String)
  | noCycle (modules : Nat)
  | programStarted (modules : Nat)
  | moduleStarted (name : String)
  | moduleFinished (name : String) (exports : Nat)
  | exportsKept (name : String) (exports : List String)
  | programFailed (f : Failure)
  deriving DecidableEq, Repr

structure State where
  store : Store
  input : Input
  clock : Clock
  output : String
  /-- The exports of the modules whose body has run to its end. -/
  memo : Table (Table Value)
  log : Array Event
  /-- How often an embedding program was asked to do something of its own. -/
  turns : Nat

/-- The state before anything has run. -/
def State.initial (input : Input) (clock : Clock) : State := ⟨Store.empty, input, clock, "", [], #[], 0⟩

/-- The state after the next line has been read. -/
def State.told (s : State) : State := { s with input := s.input.next.2 }

/-- The state after the clock has been asked. -/
def State.ticked (s : State) : State := { s with clock := s.clock.next.2 }

/-- The state after the embedding program has been called upon. -/
def State.turned (s : State) : State := { s with turns := s.turns + 1 }

/-- A computation on the state that may stop short, keeping what it has done so far. -/
abbrev Run := EStateM Stop State

namespace Run

def fail {α : Type} (f : Failure) : Run α := throw (.failure f)

def ofExcept {α : Type} : Except Stop α → Run α
  | .ok a => pure a
  | .error e => throw e

def ofFault {α : Type} : Except Fault α → Run α
  | .ok a => pure a
  | .error e => throw (.fault e)

def record (e : Event) : Run Unit := modify fun s => { s with log := s.log.push e }

def write (text : String) : Run Unit := modify fun s => { s with output := s.output ++ text }

def readLine : Run String := fun s => .ok s.input.next.1 s.told

def readClock : Run Float := fun s =>
  match s.clock.next.1 with
  | some x => .ok x s.ticked
  | none => .error .exhausted s.ticked

/-- How many calls upon the embedding program came before this one. -/
def takeTurn : Run Nat := fun s => .ok s.turns s.turned

/-- What the store says. -/
def ask {α : Type} (f : Store → α) : Run α := fun s => .ok (f s.store) s

/-- What the store says, if it says anything. -/
def consult {α : Type} (f : Store → Except Stop α) : Run α := fun s => ofExcept (f s.store) s

def change (f : Store → Store) : Run Unit := modify fun s => { s with store := f s.store }

/-- Computes with the store and changes it. -/
def onStore {α : Type} (f : Store → α × Store) : Run α
  | ⟨store, input, clock, output, memo, log, turns⟩ =>
    let (a, store) := f store
    .ok a ⟨store, input, clock, output, memo, log, turns⟩

/-- The value of a name in scope `e`. -/
def valueOf (e : ScopeId) (name : String) : Run Value := do
  match ← ask (·.lookup e name) with
  | none => fail (.notInScope name)
  | some none => fail (.unassignedVariable name)
  | some (some v) => pure v

/-- Gives a name that is declared in scope `e` or around it a value. -/
def assign (e : ScopeId) (name : String) (v : Value) : Run Unit := do
  if ← onStore (·.assign e name v) then pure () else fail (.notInScope name)

/-- The object that a value is. -/
def object (v : Value) : Run ObjectId :=
  match v with
  | .object o => pure o
  | _ => fail (.notObject v.kind)

/-- The truth value that a condition is. -/
def condition (v : Value) : Run Bool :=
  match v with
  | .boolean b => pure b
  | _ => fail (.typeMismatch [.boolean] v.kind)

end Run
end Thicket
