/-
  The class files that a command works on.

  * an `Input` is a class file and its name;
  * `Input.collect` finds the class files that paths lead to: class files as
    they are, all class files below a directory, and those of an archive.
-/
import JvmClass.Tool.Failure

namespace JvmClass.Tool

/-- A class file and its name: the path below the directory or the name in
    the archive that it is from, or else its file name. -/
structure Input where
  name : String
  bytes : Bytes

namespace Input

/-- Whether a path is that of a class file, by its extension. -/
def isClassFile (path : String) : Bool := Path.extension? path == some "class"

/-- The class files below a directory. -/
def ofDirectory (node : Node) : List Input :=
  (node.files.filter fun (names, _) => isClassFile (names.getLastD "")).map
    fun (names, content) => ⟨"/".intercalate names, content⟩

/-- The class files of the archive at a path. -/
def ofJar (path : String) (jar : Jar) (bytes : Bytes) : Except Failure (List Input) :=
  jar.classFiles.mapM fun name =>
    match jar.content bytes name with
    | .ok content => .ok ⟨name, content⟩
    | .error _ => .error (.unreadableEntry name path)

variable (unzip : Unzip) (workspace : Workspace)

/-- The class files that a path leads to. -/
def ofPath (path : String) : Except Failure (List Input) :=
  match workspace.directory? path with
  | some node => .ok (ofDirectory node)
  | none =>
    if isClassFile path then
      match workspace.read path with
      | .ok bytes => .ok [⟨(Path.fileName? path).getD path, bytes⟩]
      | .error _ => .error (.unreadable path)
    else
      match ClassPath.openJar? unzip workspace path with
      | some (jar, bytes) => ofJar path jar bytes
      | none => .error (.notAnArchive path)

/-- The class files that paths lead to. -/
def collect (paths : List String) : Except Failure (List Input) := do
  return (← paths.mapM (ofPath unzip workspace)).flatten

end Input

end JvmClass.Tool
