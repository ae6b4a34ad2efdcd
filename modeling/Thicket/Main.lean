import Std.Time.DateTime.Timestamp
import Thicket.Cli.Command
/-!
# The program

Reads what the command needs from the outside, lets `Cli.command` decide everything, and writes what it says.
-/
namespace Thicket.Cli

/-- A path through a file cannot be opened; a folder can, but not be read. -/
def fileProblem : IO.Error → FileProblem
  | .noFileOrDirectory _ _ _ => .notFound
  | .inappropriateType (some _) _ _ => .notDirectory
  | .inappropriateType none _ _ => .isDirectory
  | e => .other (toString e)

def readPath (path : String) : IO (Except FileProblem ByteArray) := do
  try
    return .ok (← IO.FS.readBinFile (cleanPath path))
  catch e => return .error (fileProblem e)

/-- The whole standard input. -/
partial def readAll (stream : IO.FS.Stream) (done : String) : IO String := do
  let line ← stream.getLine
  if line.isEmpty then return done else readAll stream (done ++ line)

/-- Whether a run of these files may read the standard input.  If not it is left alone. -/
def needsInput (o : Options) (read : String → Except FileProblem ByteArray) : Bool :=
  match loadFiles read o.files [] with
  | .modules ms =>
    o.inputs = .nothing && !o.checkOnly && ms.any fun m => asksFor nativeName "readString" m.body
  | _ => false

/-- A bound that no run reaches in a lifetime. -/
def ample : Nat := 4000000000000000000

/-- What the clock shows now, in milliseconds. -/
def readClock : IO Float := return Float.ofInt (← Std.Time.Timestamp.now).toMillisecondsSinceUnixEpoch.val

/-- Lets the command run on the readings that there are.  If it asks for one more the clock is read, and the command
runs again: it comes to the same place, and there the new reading is the time. -/
partial def runOnClock (run : (Nat → Option Float) → Transcript) (readings : Array Float) : IO Transcript := do
  let t := run fun n => readings[n]?
  if t.asked ≤ readings.size then return t else runOnClock run (readings.push (← readClock))

end Thicket.Cli

open Thicket.Cli in
def main (args : List String) : IO UInt32 := do
  let options := Options.parse args
  let paths := match options with
    | .ok o => o.files
    | .error _ => []
  let contents ← paths.mapM fun path => return (path, ← readPath path)
  let read (path : String) : Except FileProblem ByteArray := (contents.lookup path).getD (.error .notFound)
  let stdin ← match options with
    | .ok o => if needsInput o read then readAll (← IO.getStdin) "" else pure ""
    | .error _ => pure ""
  let t ← runOnClock (fun clock => command args read ⟨stdin, clock, ample⟩) #[]
  IO.print t.stdout
  IO.eprint t.stderr
  match t.ending with
  | .exit code => return code.toUInt32
  | .notText =>
    IO.eprintln "Error: a file is not UTF-8 text"
    return 1
  | .fault f =>
    IO.eprintln ("Error: " ++ (f.message?.getD "a value cannot be used"))
    return 1
  | .endless =>
    IO.eprintln "Error: the run does not end"
    return 1
