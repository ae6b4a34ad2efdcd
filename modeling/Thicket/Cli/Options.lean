import Thicket.Text.Digit
import Thicket.Text.Quoted
/-!
# The command line

Options and files may be mixed, but the files stand together: a file that an option separates from the first ones is not
recognised.  A long option may be cut short as long as it stays unambiguous, and short ones may be run together.  Two
dashes alone end the options.

`Options.parse` reads an argument list in two passes.  The first says of each argument what it is; the second goes from
left to right and takes them.
-/
namespace Thicket.Cli

inductive Opt where
  | help | verbose | checkOnly | trace | inputs
  deriving DecidableEq, Repr

namespace Opt

/-- The spellings of an option, a short one first. -/
def spellings : Opt → List String
  | help => ["-h", "--help"]
  | verbose => ["-v", "--verbose"]
  | checkOnly => ["--check-only"]
  | trace => ["--trace"]
  | inputs => ["--inputs"]

def all : List Opt := [help, verbose, checkOnly, trace, inputs]

/-- The option of an exact spelling. -/
def ofSpelling? (s : String) : Option Opt := all.find? fun o => decide (s ∈ o.spellings)

/-- The name of an option in messages. -/
def label (o : Opt) : String := "/".intercalate o.spellings

/-- All spellings, with their options. -/
def table : List (String × Opt) := all.flatMap fun o => o.spellings.map fun s => (s, o)

end Opt

/-- What is wrong with the arguments. -/
inductive UsageError where
  | missingFile
  | unrecognized (args : List String)
  | ambiguous (arg : String) (matching : List String)
  | expectedArgument (o : Opt)
  | ignoredArgument (o : Opt) (given : String)
  deriving DecidableEq, Repr

def UsageError.message : UsageError → String
  | missingFile => "the following arguments are required: FILE"
  | unrecognized args => "unrecognized arguments: " ++ " ".intercalate args
  | ambiguous arg matching => "ambiguous option: " ++ arg ++ " could match " ++ ", ".intercalate matching
  | expectedArgument o => "argument " ++ o.label ++ ": expected one argument"
  | ignoredArgument o given => "argument " ++ o.label ++ ": ignored explicit argument " ++ Text.quoted given

/-- What an argument is. -/
inductive Arg where
  | word (s : String)
  /-- The two dashes that end the options. -/
  | separator
  | unknown (s : String)
  /-- An option by itself. -/
  | plain (o : Opt)
  /-- A long option with a value after an equals sign. -/
  | withValue (o : Opt) (value : String)
  /-- A short option with more characters behind it.  An equals sign between the two is left out. -/
  | cluster (o : Opt) (rest : List Char)
  deriving DecidableEq, Repr

/-! ## What an argument is -/

/-- A text before and after its first equals sign. -/
def splitEquals (cs : List Char) : List Char × Option (List Char) :=
  match cs.dropWhile (· ≠ '=') with
  | _ :: after => (cs.takeWhile (· ≠ '='), some after)
  | [] => (cs, none)

/-- A minus sign, then digits, or a point with digits after it.  A line end may follow. -/
def looksNegative (cs : List Char) : Bool :=
  match cs with
  | '-' :: body =>
    let body := if body.getLast? = some '\n' then body.dropLast else body
    match body.dropWhile Text.isDigit with
    | [] => !body.isEmpty
    | '.' :: fraction => !fraction.isEmpty && fraction.all Text.isDigit
    | _ => false
  | _ => false

/-- An argument that starts with a dash and is no option. -/
def nonOption (s : String) : Arg :=
  if looksNegative s.toList || s.toList.contains ' ' then .word s else .unknown s

/-- An argument that starts with two dashes and is no exact spelling. -/
def classifyLong (s : String) : Except UsageError Arg :=
  let (name, value) := splitEquals s.toList
  match Opt.table.filter fun p => name.isPrefixOf p.1.toList with
  | [] => .ok (nonOption s)
  | [(_, o)] =>
    match value with
    | some v => .ok (.withValue o (String.ofList v))
    | none => .ok (.plain o)
  | several => .error (.ambiguous s (several.map Prod.fst))

/-- An argument that starts with one dash and is no exact spelling. -/
def classifyShort (s : String) : Arg :=
  match Opt.ofSpelling? (String.ofList (s.toList.take 2)), s.toList.drop 2 with
  | some o, '=' :: rest => .cluster o rest
  | some o, rest => .cluster o rest
  | none, _ => nonOption s

def classify (s : String) : Except UsageError Arg :=
  match Opt.ofSpelling? s with
  | some o => .ok (.plain o)
  | none =>
    match s.toList with
    | '-' :: '-' :: _ => classifyLong s
    | '-' :: _ :: _ => .ok (classifyShort s)
    | _ => .ok (.word s)

/-- What each argument is.  After the two dashes all are words. -/
def classifyAll : List String → Except UsageError (List Arg)
  | [] => .ok []
  | s :: rest =>
    if s = "--" then .ok (.separator :: rest.map .word)
    else do
      let a ← classify s
      return a :: (← classifyAll rest)

/-! ## Taking the arguments -/

/-- What the option for input lines has been given. -/
inductive Given where
  | nothing
  | text (s : String)
  /-- Two dashes alone: the option is there, but without a text to make lines of. -/
  | dashes
  deriving DecidableEq, Repr

def Given.ofValue (value : String) : Given := if value = "--" then .dashes else .text value

structure Options where
  files : List String
  verbose : Bool
  checkOnly : Bool
  trace : Bool
  inputs : Given
  deriving DecidableEq, Repr

/-- Why no command is to be run. -/
inductive Refusal where
  | help
  | usage (e : UsageError)
  deriving DecidableEq, Repr

/-- What has been taken so far.  `run` holds the words and separators since the last option. -/
structure Draft where
  options : Options
  run : List Arg
  extras : List String

/-- The argument as it was written, for those that can stand in a run. -/
def Arg.written : Arg → String
  | word s => s
  | _ => "--"

def Arg.isWord : Arg → Bool
  | word _ => true
  | _ => false

namespace Draft

/-- Ends a run: the first one with a word in it has the files, and any other is left over. -/
def flush (d : Draft) : Draft :=
  if d.options.files.isEmpty && d.run.any Arg.isWord then
    { d with options := { d.options with files := (d.run.filter Arg.isWord).map Arg.written }, run := [] }
  else { d with extras := d.extras ++ d.run.map Arg.written, run := [] }

/-- Takes an option that needs no value. -/
def take (d : Draft) : Opt → Except Refusal Draft
  | .help => .error .help
  | .verbose => .ok { d with options := { d.options with verbose := true } }
  | .checkOnly => .ok { d with options := { d.options with checkOnly := true } }
  | .trace => .ok { d with options := { d.options with trace := true } }
  | .inputs => .error (.usage (.expectedArgument .inputs))

def takeInputs (d : Draft) (value : String) : Draft :=
  { d with options := { d.options with inputs := .ofValue value } }

def takeAll (d : Draft) : List Opt → Except Refusal Draft
  | [] => .ok d
  | o :: rest => do (← d.take o).takeAll rest

end Draft

/-- The options in a cluster.  Each character has to be an option; from the first one that is not, all is an argument
that the option before it does not take. -/
def unpack (o : Opt) : List Char → Except UsageError (List Opt)
  | [] => .error (.ignoredArgument o "")
  | c :: rest =>
    match Opt.ofSpelling? (String.ofList ['-', c]), rest with
    | none, _ => .error (.ignoredArgument o (String.ofList (c :: rest)))
    | some next, [] => .ok [o, next]
    | some next, rest => do return o :: (← unpack next rest)

def takeArgs : List Arg → Draft → Except Refusal Draft
  | [], d => .ok d.flush
  | .word s :: rest, d => takeArgs rest { d with run := d.run ++ [.word s] }
  | .separator :: rest, d => takeArgs rest { d with run := d.run ++ [.separator] }
  | .unknown s :: rest, d =>
    let d := d.flush
    takeArgs rest { d with extras := d.extras ++ [s] }
  | .plain .inputs :: .word s :: rest, d => takeArgs rest (d.flush.takeInputs s)
  | .plain o :: rest, d => do takeArgs rest (← d.flush.take o)
  | .withValue .inputs value :: rest, d => takeArgs rest (d.flush.takeInputs value)
  | .withValue o value :: _, _ => .error (.usage (.ignoredArgument o value))
  | .cluster o chars :: rest, d =>
    match unpack o chars with
    | .error e => .error (.usage e)
    | .ok os => do takeArgs rest (← d.flush.takeAll os)

namespace Options

/-- Reads an argument list. -/
def parse (args : List String) : Except Refusal Options :=
  match classifyAll args with
  | .error e => .error (.usage e)
  | .ok known => do
    let d ← takeArgs known ⟨⟨[], false, false, false, .nothing⟩, [], []⟩
    if d.options.files.isEmpty then .error (.usage .missingFile)
    else if d.extras.isEmpty then .ok d.options
    else .error (.usage (.unrecognized d.extras))

end Options

/-! ## Texts -/

def usage : String :=
  "usage: thicket [-h] [-v] [--check-only] [--trace] [--inputs INPUTS]\n" ++
  "               FILE [FILE ...]\n"

def helpText : String :=
  usage ++
  "\nThicket - run programs given as JSON module documents\n" ++
  "\npositional arguments:\n" ++
  "  FILE             JSON module document (one module or a list of modules)\n" ++
  "\noptions:\n" ++
  "  -h, --help       show this help message and exit\n" ++
  "  -v, --verbose    Show detailed output\n" ++
  "  --check-only     Only check imports and import cycles, don't evaluate\n" ++
  "  --trace          Log evaluation steps to stderr\n" ++
  "  --inputs INPUTS  Input lines for readString (comma-separated or JSON array)\n"

def UsageError.text (e : UsageError) : String := usage ++ "thicket: error: " ++ e.message ++ "\n"

end Thicket.Cli
