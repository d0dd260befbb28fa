/-
  Why a command fails.

  * `Failure` lists the causes, `Failure.message` is what the tool says.
-/
import JvmClass.ClassPath.Entries
import JvmClass.ClassPath.Failure

namespace JvmClass.Tool

/-- Why a command fails. -/
inductive Failure where
  | unreadable (path : String)
  | notAnArchive (path : String)
  | unreadableEntry (name path : String)
  | undecodable (name : String)
  | unencodable (name : String)
  | unstrippable (name : String)
  /-- A class does not decode any more after it was encoded. -/
  | unstable (name : String)
  | invalidFiles (count : Nat)
  | classPath (cause : OpenError)
  | className (cause : InvalidName)
  | load (cause : LoadError)
  | missing (id : Identifier)
  | noDirectory (path : String)
  | unwritable (path : String)

def Failure.message : Failure → String
  | unreadable path => s!"unable to read {path}"
  | notAnArchive path => s!"{path} is neither a class file nor a jar"
  | unreadableEntry name path => s!"unable to read {name} from {path}"
  | undecodable name => s!"unable to decode {name}"
  | unencodable name => s!"unable to encode {name}"
  | unstrippable name => s!"unable to strip {name}"
  | unstable name => s!"round trip of {name} failed"
  | invalidFiles count => s!"{count} invalid class files"
  | classPath cause => cause.message
  | className cause => cause.message
  | load cause => cause.message
  | missing id => s!"class {id.binaryName} not found on the class path"
  | noDirectory path => s!"unable to create {path}"
  | unwritable path => s!"unable to write {path}"

end JvmClass.Tool
