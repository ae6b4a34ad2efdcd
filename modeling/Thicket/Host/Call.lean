import Thicket.Display
import Thicket.Host.Result
/-!
# Calling the host

What each action of the host does to the run, and what it answers.
-/
namespace Thicket

/-- The answer about the number at the start of a text.  Anything but a text holds none. -/
def parsedNumber (v : Value) : Table Value :=
  let x := match v with
    | .string s => Number.leading s
    | _ => Number.notANumber
  if x.isNaN then [("isValid", .boolean false)]
  else [("isValid", .boolean true), ("value", .number x)]

namespace Deed

def sight (s : Store) : Value → Sight
  | .number x => .number x
  | .boolean b => .boolean b
  | .string t => .string t
  | .null => .null
  | .object o => .object (Table.names (s.fields o))
  | .closure _ | .native _ => .function

/-- The values that come to hand when a value is looked at. -/
def within (s : Store) : Value → List Value
  | .object o => (s.fields o).map Prod.snd
  | _ => []

def same : Value → Value → Bool
  | .object o, .object o' => o = o'
  | _, _ => false

/-- Goes through with a deed, with these values at hand.  A place where no value is stands for null. -/
def perform : Deed → List Value → Run HostResult
  | answer data, _ => return .data data
  | answerFields fields, hand => return .fields (Table.ofPairs (fields.map fun f => (f.1, hand.getD f.2 .null)))
  | abort message, _ => throw (.fault (.aborted message))
  | write text next, hand => do
    Run.write text
    next.perform hand
  | readLine next, hand => do
    let line ← Run.readLine
    (next line).perform hand
  | look i next, hand => do
    let v := hand.getD i .null
    let (seen, more) ← Run.ask fun s => (sight s v, within s v)
    (next seen).perform (hand ++ more)
  | compare i j next, hand => (next (same (hand.getD i .null) (hand.getD j .null))).perform hand
  | make b next, hand => do
    let v ← Run.onStore b.build
    next.perform (hand ++ [v])
  | makeNative name params returns act next, hand => next.perform (hand ++ [.native ⟨name, params, returns, .own act⟩])
  | setField i name j next, hand =>
    match hand.getD i .null with
    | .object o => do
      Run.change (·.setField o name (hand.getD j .null))
      next.perform hand
    | _ => throw (.fault .unusable)

end Deed

/-- The host's answer to a call. -/
def HostAction.perform (args : List Value) : HostAction → Run HostResult
  | print => do
    let text ← Run.consult (·.display (args.headD .null))
    Run.write (text ++ "\n")
    return .data .null
  | clock => return .data (.float (← Run.readClock))
  | parseNumber => return .fields (parsedNumber (args.headD .null))
  | readLine => return .data (.str (← Run.readLine))
  | own act => do
    let turn ← Run.takeTurn
    (act turn).perform args

/-- Calls a function of the host.  The number of arguments is checked first; then a function that is declared to return
a function is refused, before the host does anything. -/
def NativeFunction.call (f : NativeFunction) (args : List Value) : Run Value := do
  if args.length ≠ f.params.length then Run.fail (.arityMismatch f.params.length args.length)
  else if ((Kind.ofLabel? f.returns).map Kind.isCallable).getD false then
    Run.fail (.nativeReturnedFunction f.name)
  else
    let answer ← f.action.perform args
    answer.wrap f.returns

end Thicket
