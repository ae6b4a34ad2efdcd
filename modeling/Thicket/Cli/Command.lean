import Thicket.Cli.Files
import Thicket.Cli.Inputs
import Thicket.Cli.Log
import Thicket.Cli.Options
import Thicket.Display
import Thicket.Document.Decode
import Thicket.Host.Native
import Thicket.Run.Program
/-!
# The command

`Cli.command` is the whole command as a function: from the arguments, the files, the input and what the clock shows to
what is written and how it ends.
-/
namespace Thicket.Cli

/-! ## Colours -/

inductive Colour where
  | dim | red | green | yellow | cyan
  deriving DecidableEq, Repr

def Colour.code : Colour → String
  | dim => "\x1b[2m"
  | red => "\x1b[31m"
  | green => "\x1b[32m"
  | yellow => "\x1b[33m"
  | cyan => "\x1b[36m"

def resetCode : String := "\x1b[0m"

def coloured (c : Colour) (text : String) : String := c.code ++ text ++ resetCode

def message (c : Colour) (text : String) : String := coloured c text ++ "\n"

/-- The colour of a result by its kind. -/
def valueColour? : Value → Option Colour
  | .number _ => some .cyan
  | .string _ => some .green
  | .closure _ | .native _ => some .yellow
  | _ => none

/-- A result as it is shown. -/
def formatValue (s : Store) (v : Value) : Except Stop String :=
  (s.display v).map fun text =>
    match valueColour? v with
    | some c => coloured c text
    | none => text

/-! ## The command -/

/-- How a command ends. -/
inductive Ending where
  | exit (code : Nat)
  /-- The bytes of a file are not UTF-8. -/
  | notText
  | fault (f : Fault)
  /-- The run was longer than its bound. -/
  | endless
  deriving DecidableEq, Repr

/-- What a command has written, and how it ended. -/
structure Transcript where
  ending : Ending
  stdout : String
  stderr : String
  /-- How often the clock was asked. -/
  asked : Nat

/-- What reading the files gave: all modules, or the first thing that went wrong. -/
inductive Loaded where
  | modules (ms : List Module)
  | refused (report : String)
  | broken (e : Ending)

/-- Reads the files one after the other. -/
def loadFiles (read : String → Except FileProblem ByteArray) : List String → List Module → Loaded
  | [], done => .modules done
  | path :: rest, done =>
    if path.toList.contains (Char.ofNat 0) then .broken (.fault .nulInPath)
    else
      match read path with
      | .error problem => .refused (message .red ("Error: Could not read " ++ path ++ ": " ++ problem.message))
      | .ok bytes =>
        match loadFile bytes with
        | .ok ms => loadFiles read rest (done ++ ms)
        | .error (.malformed e) => .refused (message .red ("Error: " ++ path ++ ": " ++ e.message))
        | .error .overflow => .broken (.fault .overflow)
        | .error .notText => .broken .notText
        | .error .tooManyDigits => .broken (.fault .tooManyDigits)
        | .error .loneSurrogate => .broken (.fault .loneSurrogate)

def Ending.ofStop : Stop → Ending
  | .failure _ => .exit 1
  | .fault f => .fault f
  | .exhausted => .endless

/-- The result of the static checks alone: the exit code and what is written. -/
def check (modules : List Module) : Run (Nat × String) := do
  match missingImports modules with
  | [] =>
    match ← searchCycle modules with
    | some cycle =>
      return (1, message .red "Circular dependency" ++ message .red ("  " ++ arrowPath (cycle ++ cycle.take 1)))
    | none => return (0, message .green "✓ Module checks passed")
  | missing =>
    return (1, String.join (missing.map fun p =>
      message .red ("No such module: " ++ p.2 ++ " (imported by " ++ p.1 ++ ")")))

/-- What is written at the end of a run. -/
def resultText : Except Stop String → String
  | .ok text => coloured .green "Result:" ++ " " ++ text ++ "\n"
  | .error (.failure f) =>
    message .red ("Evaluation error: " ++ f.code.label) ++ message .red ("  " ++ f.message)
  | .error _ => ""

/-- What a run is given besides its files. -/
structure Surroundings where
  stdin : String
  /-- The readings of the clock. -/
  clock : Nat → Option Float
  fuel : Nat

/-- The lines that a program can read: those on the command line, or the standard input. -/
def inputOf (o : Options) (around : Surroundings) : Except Fault Input :=
  match o.inputs with
  | .text text => (inputLines text).map .queue
  | .dashes => .error .unusable
  | .nothing => .ok (.lines ((Text.lines (Text.unifyNewlines around.stdin.toList)).map String.ofList))

/-- Checks or runs the modules. -/
def runModules (o : Options) (around : Surroundings) (modules : List Module) : Transcript :=
  let loaded :=
    if o.verbose then
      message .dim ("Loaded " ++ toString modules.length ++ " modules: " ++ ", ".intercalate (modules.map Module.name))
    else ""
  let stderr (s : State) := if o.trace then logText s.log else ""
  if o.checkOnly then
    match check modules (State.initial (.queue []) (.ofReadings around.clock)) with
    | .ok (code, text) s => ⟨.exit code, loaded ++ text, stderr s, 0⟩
    | .error e s => ⟨.ofStop e, loaded, stderr s, 0⟩
  else
    match inputOf o around with
    | .error f => ⟨.fault f, loaded, "", 0⟩
    | .ok input =>
      let p : Program := ⟨modules, standardNatives⟩
      match p.run around.fuel true (State.initial input (.ofReadings around.clock)) with
      | .ok v s =>
        match formatValue s.store v with
        | .ok text => ⟨.exit 0, loaded ++ s.output ++ resultText (.ok text), stderr s, s.clock.asked⟩
        | .error e => ⟨.ofStop e, loaded ++ s.output, stderr s, s.clock.asked⟩
      | .error e s => ⟨.ofStop e, loaded ++ s.output ++ resultText (.error e), stderr s, s.clock.asked⟩

/-- Loads the files and checks or runs what is in them. -/
def runFiles (o : Options) (read : String → Except FileProblem ByteArray) (around : Surroundings) : Transcript :=
  match loadFiles read o.files [] with
  | .modules ms => runModules o around ms
  | .refused report => ⟨.exit 1, report, "", 0⟩
  | .broken e => ⟨e, "", "", 0⟩

def command (args : List String) (read : String → Except FileProblem ByteArray) (around : Surroundings) :
    Transcript :=
  match Options.parse args with
  | .ok o => runFiles o read around
  | .error .help => ⟨.exit 0, helpText, "", 0⟩
  | .error (.usage e) => ⟨.exit 2, "", e.text, 0⟩

end Thicket.Cli
