/-
  Class paths from lists of paths.

  * each entry of a class path is a directory or, if it is not, a jar;
  * a `Place` is an entry that was opened: `Place.source` is the source that it
    is by now, since files can change after that;
  * `ClassPath.ofEnvironment` takes the entries from the environment, and the
    classes of the runtime from its home.
-/
import JvmClass.ClassPath.Lookup

namespace JvmClass

/-- Why a class path cannot be had: a jar or a module does not open. -/
inductive OpenError where
  | jar (path : String)
  | runtimeModule (path : String)
  deriving DecidableEq, Repr

def OpenError.message : OpenError → String
  | jar path => s!"unable to open {path}"
  | runtimeModule path => s!"unable to open module {path}"

/-- What the environment says about classes. -/
structure Environment where
  /-- Entries, with colons between them. -/
  classPath : Option String
  /-- Where the runtime is. -/
  javaHome : Option String
  deriving DecidableEq, Repr, Inhabited

/-- An entry of a class path: a directory, or an archive with what was read of
    it when it was opened. -/
inductive Place where
  | directory (path : String)
  | archive (path : String) (jar : Jar)

/-- The source that a place is in a workspace. -/
def Place.source (workspace : Workspace) : Place → Source
  | directory path => .below workspace path
  | archive path jar => .jar jar ((workspace.read path).toOption.getD [])

namespace ClassPath

/-- The class path that places are in a workspace. -/
def ofPlaces (workspace : Workspace) (places : List Place) : ClassPath :=
  places.map (Place.source workspace)

variable (unzip : Unzip) (workspace : Workspace)

/-- The jar at a path, if there is one, and its bytes. -/
def openJar? (path : String) : Option (Jar × Bytes) :=
  match workspace.read path with
  | .error _ => none
  | .ok bytes => (Jar.ofBytes unzip bytes).toOption.map fun jar => (jar, bytes)

/-- The place at a path. -/
def ofEntry (path : String) : Except OpenError Place :=
  match workspace.directory? path, openJar? unzip workspace path with
  | some _, _ => .ok (.directory path)
  | none, some (jar, _) => .ok (.archive path jar)
  | none, none => .error (.jar path)

/-- The places at paths. -/
def ofEntries (paths : List String) : Except OpenError (List Place) :=
  paths.mapM (ofEntry unzip workspace)

/-- Where the classes of a runtime are, below its home. -/
def runtimePath : String := "jmods/java.base.jmod"

/-- The classes of a runtime; none if there is no such file. -/
def ofRuntime (home : String) : Except OpenError (List Place) :=
  let path := Path.join home runtimePath
  match workspace.read path with
  | .error _ => .ok []
  | .ok bytes =>
    match Jar.moduleOfBytes unzip bytes with
    | .ok jar => .ok [.archive path jar]
    | .error _ => .error (.runtimeModule path)

/-- The places that the environment names. -/
def ofEnvironment (environment : Environment) : Except OpenError (List Place) := do
  let paths := ((environment.classPath.map (Text.splitText ':')).getD []).filter (· ≠ "")
  let places ← ofEntries unzip workspace paths
  match environment.javaHome with
  | none => return places
  | some home => return places ++ (← ofRuntime unzip workspace home)

end ClassPath

end JvmClass
