/-
  Running the tool.

  * a `Host` is where actions take effect;
  * `perform` carries out actions, and `performAll` stages, up to the first
    failure;
  * `runOn` does what a command line says.  With `run` all that becomes of it is
    its `Outcome`: what is printed, what becomes of the files, and how it ends.
-/
import JvmClass.Tool.Script

namespace JvmClass.Tool

/-- Write a file below a directory, which is made if it is not there. -/
@[irreducible] def save (workspace : Workspace) (directory name : String) (content : Bytes) :
    Except Failure Workspace :=
  let path := Path.join directory name
  match workspace.createDirectories (Path.parent path) with
  | .error _ => .error (.noDirectory (Path.parent path))
  | .ok workspace =>
    match workspace.write path content with
    | .error _ => .error (.unwritable path)
    | .ok workspace => .ok workspace

/-- Where actions take effect. -/
structure Host (m : Type → Type) where
  print : (line : String) → m Unit
  /-- Write a file below a directory; gives the files that there are then. -/
  save : (workspace : Workspace) → (directory name : String) → (content : Bytes) →
    m (Except Failure Workspace)

section
variable {m : Type → Type} [Monad m] (host : Host m)

/-- Carry out actions, up to the first that fails. -/
def perform (workspace : Workspace) : List Action → m (Workspace × Option Failure)
  | [] => return (workspace, none)
  | .print line :: rest => do
    host.print line
    perform workspace rest
  | .write directory name content :: rest => do
    match ← host.save workspace directory name content with
    | .ok workspace => perform workspace rest
    | .error failure => return (workspace, some failure)
  | .fail failure :: _ => return (workspace, some failure)

/-- Carry out stages, up to the first failure. -/
def performAll (session : Session) : List Stage → m (Workspace × Option Failure)
  | [] => return (session.workspace, none)
  | stage :: rest => do
    let (actions, known) := stage session
    match ← perform host session.workspace actions with
    | (workspace, none) => performAll ⟨workspace, known⟩ rest
    | failed => return failed

/-- Carry out a command. -/
def runOn (unzip : Unzip) (workspace : Workspace) (environment : Environment)
    (arguments : Arguments) : m (Workspace × Option Failure) :=
  performAll host ⟨workspace, []⟩ (script unzip workspace environment arguments)

end

/-- Nothing takes effect but on the workspace; what is printed is kept. -/
def Host.kept : Host (StateM String) where
  print line := modify fun printed => printed ++ line ++ "\n"
  save workspace directory name content := return Tool.save workspace directory name content

/-- What comes of running the tool. -/
structure Outcome where
  workspace : Workspace
  /-- What is printed. -/
  printed : String
  /-- Why it failed, if it did. -/
  failure : Option Failure

/-- What the tool says about itself. -/
def helpText : String :=
  "Usage: classtool [OPTIONS] <COMMAND>\n\n" ++
  "Commands:\n" ++
  "  info       print the structure of each class\n" ++
  "  validate   check that each class decodes\n" ++
  "  version    print the class file major version of each class\n" ++
  "  access     print the class access flags of each class\n" ++
  "  strip      remove debug information\n" ++
  "  roundtrip  decode and encode each class again\n" ++
  "  load       look a class up on the class path and print it\n" ++
  "  help       Print this message or the help of the given subcommand(s)\n\n" ++
  "Options:\n" ++
  "      --classpath <CLASSPATH>  jars and directories to load classes from, searched in order\n" ++
  "  -h, --help                   Print help\n" ++
  "  -V, --version                Print version\n"

/-- What the tool says its version is. -/
def versionText : String := "classtool 0.1.0\n"

/-- What a command line that gives no command to carry out ends in: what is
    printed, and the exit code. -/
def Stop.response : Stop → String × UInt32
  | usage => ("", 2)
  | help => (helpText, 0)
  | version => (versionText, 0)

/-- The exit code after a command. -/
def Outcome.exitCode (outcome : Outcome) : UInt32 := if outcome.failure.isSome then 1 else 0

/-- The message about a failure. -/
def Failure.report (failure : Failure) : String := "Error: " ++ failure.message

/-- What comes of a command. -/
def run (unzip : Unzip) (workspace : Workspace) (environment : Environment)
    (arguments : Arguments) : Outcome :=
  let ((workspace, failure), printed) :=
    (runOn .kept unzip workspace environment arguments).run ""
  ⟨workspace, printed, failure⟩

end JvmClass.Tool
