import Thicket.Module
/-!
# The imports of a module

A module imports from wherever an import statement stands in it, at any depth.  The functions of the host do not count.
-/
namespace Thicket

mutual

/-- The statements in a statement, itself included. -/
def Stmt.count : Stmt → Nat
  | .function _ _ body => countAll body + 1
  | .branch _ whenTrue whenFalse => countAll whenTrue + countAll whenFalse + 1
  | .loop _ body => countAll body + 1
  | _ => 1

def countAll : List Stmt → Nat
  | [] => 0
  | s :: rest => s.count + countAll rest

end

/-- Adds a name that is not there yet, at the end. -/
def addName (names : List String) (name : String) : List String :=
  if name ∈ names then names else names ++ [name]

/-- Walks through pending statements, the first one next and what stands inside it before what follows, for at most `n`
statements.  The imported names are collected as they are met. -/
def importsWithin : Nat → List Stmt → List String → List String
  | 0, _, seen => seen
  | _ + 1, [], seen => seen
  | n + 1, .importFrom source _ :: rest, seen =>
    importsWithin n rest (if source = nativeName then seen else addName seen source)
  | n + 1, .function _ _ body :: rest, seen => importsWithin n (body ++ rest) seen
  | n + 1, .branch _ whenTrue whenFalse :: rest, seen => importsWithin n (whenTrue ++ (whenFalse ++ rest)) seen
  | n + 1, .loop _ body :: rest, seen => importsWithin n (body ++ rest) seen
  | n + 1, _ :: rest, seen => importsWithin n rest seen

/-- The modules that a body imports from, each once, in the order in which they are first named.  Every step of the walk
takes one statement away, so as many steps as there are statements are enough. -/
def collectImports (body : List Stmt) : List String := importsWithin (countAll body) body []

mutual

/-- Whether a statement imports a name from a module, at any depth. -/
def Stmt.asksFor (source name : String) : Stmt → Bool
  | .importFrom other names => other = source && names.contains name
  | .function _ _ body => asksFor source name body
  | .branch _ whenTrue whenFalse => asksFor source name whenTrue || asksFor source name whenFalse
  | .loop _ body => asksFor source name body
  | _ => false

def asksFor (source name : String) : List Stmt → Bool
  | [] => false
  | s :: rest => s.asksFor source name || asksFor source name rest

end

/-- The imports that name no module, each with the module it stands in. -/
def missingImports (modules : List Module) : List (String × String) :=
  modules.flatMap fun m =>
    ((collectImports m.body).filter fun i => (findModule? modules i).isNone).map fun i => (m.name, i)

end Thicket
