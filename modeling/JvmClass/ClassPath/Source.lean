/-
  Places that hold classes.

  * a `Source` answers with the class file of a class;
  * `Source.memory`, `Source.directory`, `Source.below` and `Source.jar` are the
    sources there are: class files in memory, in a tree of files, below a path of
    a workspace, and in an archive.
-/
import JvmClass.ClassPath.Failure
import JvmClass.ClassPath.Archive
import JvmClass.Files.Workspace

namespace JvmClass

/-- A place that holds classes. -/
structure Source where
  /-- The bytes of the class file of a class. -/
  read : Identifier → Except LoadError Bytes
  /-- A bound on the number of classes that there are. -/
  capacity : Nat

namespace Source

/-- Class files in memory, by path.  A class without bytes is there, but
    cannot be read. -/
def memory (files : List (String × Option Bytes)) : Source where
  read id :=
    match files.lookup id.path with
    | some (some bytes) => .ok bytes
    | some none => .error (.failed id .refused)
    | none => .error (.notFound id)
  capacity := files.length

/-- Class files below a directory. -/
def directory (root : Node) : Source where
  read id :=
    if !Path.canLead id.path then .error (.failed id (.unreadableFile .notAName))
    else
      match root.find (Path.steps id.path) >>= Node.content with
      | .ok bytes => .ok bytes
      | .error .notFound => .error (.notFound id)
      | .error e => .error (.failed id (.unreadableFile e))
  capacity := root.files.length

/-- Class files below a path of a workspace. -/
def below (workspace : Workspace) (path : String) : Source where
  read id :=
    match workspace.read (Path.join path id.path) with
    | .ok bytes => .ok bytes
    | .error .notFound => .error (.notFound id)
    | .error e => .error (.failed id (.unreadableFile e))
  capacity := workspace.root.files.length

/-- Class files in an archive, which consists of `bytes` by now. -/
def jar (jar : Jar) (bytes : Bytes) : Source where
  read id :=
    match jar.content bytes (jar.base ++ id.path) with
    | .ok content => .ok content
    | .error .noEntry => .error (.notFound id)
    | .error e => .error (.failed id (.unreadableEntry e))
  capacity := jar.archive.names.length

end Source

end JvmClass
