/-
  Working with files by their paths.

  * a `Workspace` is a tree of files with a working directory in it;
  * `Workspace.resolve` follows a path, and says which names lead there;
  * `read` gives the content of a file, `createDirectories` and `write` change
    the tree.
-/
import JvmClass.Files.Path
import JvmClass.Files.Tree

namespace JvmClass

/-- All files, and the names that lead to the working directory. -/
structure Workspace where
  root : Node
  here : List String

namespace Workspace

/-- Where a path starts. -/
def start (workspace : Workspace) (path : String) : List String :=
  if Path.isAbsolute path then [] else workspace.here

/-- Take a step of a path from the directory that `names` lead to. -/
def step (workspace : Workspace) (names : List String) (step : String) :
    Except PathError (List String) := do
  let node ← workspace.root.find names
  if !node.isDirectory then throw .notADirectory
  if Path.isIdle step then return names
  if step = ".." then return names.dropLast
  let _ ← node.child step
  return names ++ [step]

/-- The names that lead where a path leads. -/
def resolve (workspace : Workspace) (path : String) : Except PathError (List String) :=
  if path.isEmpty then .error .notFound
  else if !Path.canLead path then .error .notAName
  else (Path.steps path).foldlM workspace.step (workspace.start path)

/-- What a path leads to. -/
def find (workspace : Workspace) (path : String) : Except PathError Node := do
  workspace.root.find (← workspace.resolve path)

/-- The directory that a path leads to. -/
def directory? (workspace : Workspace) (path : String) : Option Node :=
  match workspace.find path with
  | .ok (.directory entries) => some (.directory entries)
  | _ => none

/-- The content of the file that a path leads to. -/
def read (workspace : Workspace) (path : String) : Except PathError Bytes := do
  (← workspace.find path).content

/-- Have a directory, unless it is there, and go into it. -/
def enter (state : Workspace × List String) (step : String) :
    Except PathError (Workspace × List String) :=
  let (workspace, names) := state
  match workspace.step names step with
  | .ok names => .ok (workspace, names)
  | .error .notFound =>
    let create : Node → Node
      | .directory entries => .directory (Node.put step .empty entries)
      | file => file
    .ok ({ workspace with root := workspace.root.modify create names }, names ++ [step])
  | .error e => .error e

/-- Make the directories on a path that are missing. -/
def createDirectories (workspace : Workspace) (path : String) : Except PathError Workspace := do
  if path.isEmpty then return workspace
  if !Path.canLead path then throw .notAName
  let (workspace, names) ←
    (Path.steps path).foldlM enter (workspace, workspace.start path)
  if (← workspace.root.find names).isDirectory then return workspace
  throw .notADirectory

/-- Give the file at a path its content; the directory must be there. -/
def write (workspace : Workspace) (path : String) (content : Bytes) :
    Except PathError Workspace := do
  if !Path.canLead path then throw .notAName
  let steps := Path.steps path
  let name := steps.getLastD ""
  let names ← steps.dropLast.foldlM workspace.step (workspace.start path)
  let node ← workspace.root.find names
  if Path.isIdle name || name = ".." then throw .isADirectory
  match node, node.child name with
  | _, .ok (.directory _) => throw .isADirectory
  | .directory entries, .ok (.file _) | .directory entries, .error .notFound =>
    let node := .directory (Node.put name (.file content) entries)
    return { workspace with root := workspace.root.modify (fun _ => node) names }
  | .file _, _ => throw .notADirectory
  | _, .error e => throw e

/-- The files below the working directory, each with its path from there. -/
def files (workspace : Workspace) : List (String × Bytes) :=
  match workspace.root.find workspace.here with
  | .ok node => node.files.map fun (names, content) => ("/".intercalate names, content)
  | .error _ => []

end Workspace

end JvmClass
