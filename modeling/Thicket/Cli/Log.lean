import Thicket.Run.State
import Thicket.Text.Quoted
/-!
# The log as text

A traced run writes one line for each event, under the name of the part of the program that it comes from.
-/
namespace Thicket.Cli

/-- The part of the program that an event comes from. -/
def eventSource : Event → String
  | .cycleFound _ | .noCycle _ => "pythicket.cycles"
  | .exportsKept _ _ => "pythicket.exports"
  | _ => "pythicket.evaluator"

def eventText : Event → String
  | .unknownImport importer imported => "Module " ++ importer ++ " imports unknown module " ++ imported
  | .cycleFound cycle => "Import cycle found: " ++ arrowPath cycle
  | .noCycle n => "No import cycle among " ++ toString n ++ " modules"
  | .programStarted n => "Running program with " ++ toString n ++ " modules"
  | .moduleStarted name => "Evaluating module " ++ name
  | .moduleFinished name n => "Finished module " ++ name ++ " (" ++ toString n ++ " exports)"
  | .exportsKept name exports => "Memoized exports of " ++ name ++ ": " ++ Text.quotedList exports
  | .programFailed f => "Program failed: " ++ f.text

def eventLine (e : Event) : String := "DEBUG " ++ eventSource e ++ ": " ++ eventText e ++ "\n"

def logText (log : Array Event) : String := String.join (log.toList.map eventLine)

end Thicket.Cli
