/-!
# Files

What a path leads to.  A folder is given as a list of what is in it, each entry under the names that lead to it.
It lies in other folders, and of these nothing is known but that they are there.
-/
namespace Thicket.Cli

/-- Why a file cannot be read. -/
inductive FileProblem where
  | notFound | isDirectory | notDirectory
  | other (reason : String)
  deriving DecidableEq, Repr

def FileProblem.message : FileProblem → String
  | notFound => "No such file or directory"
  | isDirectory => "Is a directory"
  | notDirectory => "Not a directory"
  | other reason => reason

inductive FileEntry where
  | file (bytes : ByteArray)
  | directory

/-- Where a walk stands: in a folder under these names, or in one of the folders around the whole. -/
inductive Place where
  | inside (names : List String)
  | outside
  deriving DecidableEq, Repr

/-- One folder up.  The outermost one is its own parent, so there is no end to it. -/
def Place.parent : Place → Place
  | inside [] => outside
  | inside names => inside names.dropLast
  | outside => outside

/-- The entries of a folder, each with the names on the way to it. -/
abbrev Folder := List (List String × FileEntry)

/-- The names of a path.  Empty names and single points lead nowhere and are left out. -/
def pathNames (path : String) : List String :=
  (path.splitOn "/").filter fun name => name ≠ "" && name ≠ "."

/-- A path with nothing in it that leads nowhere. -/
def cleanPath (path : String) : String :=
  let names := "/".intercalate (pathNames path)
  if path.startsWith "/" then "/" ++ names else if names.isEmpty then "." else names

namespace Folder

def entry? (f : Folder) (names : List String) : Option FileEntry :=
  (f.find? fun e => e.1 = names).map Prod.snd

/-- Whether the names lead to a folder: the whole, one that is listed, or one that something listed lies in. -/
def isFolder (f : Folder) (names : List String) : Bool :=
  names.isEmpty || f.any fun e =>
    match e.2 with
    | .directory => names.isPrefixOf e.1
    | .file _ => names.isPrefixOf e.1 && names.length < e.1.length

/-- Goes along a path, from the place that has been reached. -/
def walk (f : Folder) (here : Place) (names : List String) : Except FileProblem ByteArray :=
  match names, here with
  | [], _ => .error .isDirectory
  | ".." :: rest, _ => f.walk here.parent rest
  | _ :: _, .outside => .error .notFound
  | name :: rest, .inside above =>
    let there := above ++ [name]
    if f.isFolder there then f.walk (.inside there) rest
    else
      match f.entry? there with
      | some (.file bytes) => if rest.isEmpty then .ok bytes else .error .notDirectory
      | _ => .error .notFound

/-- The bytes of the file at a path. -/
def read (f : Folder) (path : String) : Except FileProblem ByteArray :=
  f.walk (if path.startsWith "/" then .outside else .inside []) (pathNames path)

end Folder
end Thicket.Cli
