/-
  The program.

  * it reads the files that the command line and the environment name;
  * `Main.host` lets the actions of the command take effect on the files.
-/
import JvmClass.Archive.Zip
import JvmClass.Tool.Run

namespace JvmClass.Main

open Tool

/-- The names in a directory; `none` if the path leads to something else. -/
def readNames (path : String) : IO (Option (List String)) := do
  try
    let place := (← IO.currentDir) / path
    let entries ← place.readDir
    return some (entries.toList.map fun entry => entry.fileName)
  catch _ => return none

/-- The content of a file; `none` if it cannot be read. -/
def readContent (path : String) : IO (Option Bytes) := do
  try
    let content ← IO.FS.readBinFile path
    return some content.data.toList
  catch _ => return none

/-- Read a directory or a file; a file that is not `wanted` counts as empty.
    In a directory only the class files are wanted. -/
partial def readNode (wanted : Bool) (path : String) : IO (Option Node) := do
  match ← readNames path with
  | none => if wanted then return (← readContent path).map .file else return some (.file [])
  | some names =>
    let entries ← names.foldlM (fun entries name => do
      match ← readNode (Input.isClassFile name) (Path.join path name) with
      | some node => return Node.put name node entries
      | none => return entries) []
    return some (.directory entries)

/-- Put a node where names lead, below directories that are made for it. -/
def plant (node : Node) : List String → Node → Node
  | [], _ => node
  | name :: names, tree =>
    let entries := match tree with
      | .directory entries => entries
      | .file _ => []
    let child := (entries.lookup name).getD .empty
    .directory (Node.put name (plant node names child) entries)

/-- The workspace that holds what is at the given paths. -/
def readWorkspace (paths : List String) : IO Workspace := do
  let here := Path.names [] (← IO.currentDir).toString
  let root ← paths.foldlM (fun root path => do
    match ← readNode true path with
    | some node => return plant node (Path.names here path) root
    | none => return root) (plant .empty here .empty)
  return ⟨root, here⟩

/-- The paths that a command reads. -/
def pathsOf (environment : Environment) (arguments : Arguments) : List String :=
  let entries := (environment.classPath.map (Text.splitText ':')).getD []
  let runtime := environment.javaHome.toList.map fun home =>
    Path.join home ClassPath.runtimePath
  arguments.command.inputs ++ arguments.classPath ++ entries.filter (· ≠ "") ++ runtime

/-- Whether an effect goes through. -/
def succeeds (effect : IO Unit) : IO Bool := do
  try
    effect
    return true
  catch _ => return false

/-- Actions take effect on the files that there are, and on the workspace that
    was read of them. -/
def host : Host IO where
  print line := IO.println line
  save workspace directory name content := do
    let path := Path.join directory name
    if !(← succeeds (IO.FS.createDirAll (Path.parent path))) then
      return .error (.noDirectory (Path.parent path))
    if !(← succeeds (IO.FS.writeBinFile path ⟨content.toArray⟩)) then
      return .error (.unwritable path)
    return .ok ((save workspace directory name content).toOption.getD workspace)

end JvmClass.Main

open JvmClass Tool in
/-- The program. -/
def main (args : List String) : IO UInt32 := do
  match Arguments.parse args with
  | .error stop =>
    let (text, code) := stop.response
    IO.print text
    if code ≠ 0 then IO.eprint helpText
    return code
  | .ok arguments =>
    let environment : Environment := ⟨← IO.getEnv "CLASSPATH", ← IO.getEnv "JAVA_HOME"⟩
    let workspace ← Main.readWorkspace (Main.pathsOf environment arguments)
    let (_, failure) ← runOn Main.host Archive.Zip.unzip workspace environment arguments
    match failure with
    | none => return 0
    | some failure =>
      IO.eprintln failure.report
      return 1
