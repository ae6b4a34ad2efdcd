import Thicket.Failure
import Thicket.Text.Quoted
/-!
# How a run stops short

A run that does not end with a value has failed in the language (`Failure`), has been broken off by the host (`Fault`),
or has been given too little fuel.  Only failures are part of the language: no program can see a fault, and nothing
catches one.
-/
namespace Thicket

/-- What breaks a run off from the outside. -/
inductive Fault where
  /-- A text that should have been a number. -/
  | badNumber (text : String)
  /-- An answer of the host, or an option's value, that what is asked for cannot be made from. -/
  | unusable
  /-- A whole number beyond the doubles. -/
  | overflow
  /-- A whole number with more digits than can be read. -/
  | tooManyDigits
  /-- A string with half of a surrogate pair in it, which is no text. -/
  | loneSurrogate
  /-- A label that names nothing known. -/
  | unexpected (label : String)
  /-- The host gave up. -/
  | aborted (message : String)
  /-- A path with the character NUL in it, which no file can have. -/
  | nulInPath
  /-- An import graph was asked for although a module is missing. -/
  | unresolvedImport (importer imported : String)
  deriving DecidableEq, Repr

/-- The wording of a fault, for those that have one. -/
def Fault.message? : Fault → Option String
  | badNumber text => some ("could not convert string to float: " ++ Text.quoted text)
  | unusable => none
  | overflow => none
  | tooManyDigits => none
  | loneSurrogate => none
  | unexpected label => some ("Unexpected value: " ++ Text.quoted label)
  | aborted message => some message
  | nulInPath => some "embedded null byte"
  | unresolvedImport importer imported =>
    some ("Module " ++ importer ++ " imports " ++ imported ++ ", which is not in the module list")

inductive Stop where
  | failure (f : Failure)
  | fault (f : Fault)
  /-- The bound on the length of the run was reached, or no bound would do. -/
  | exhausted
  deriving DecidableEq, Repr

end Thicket
