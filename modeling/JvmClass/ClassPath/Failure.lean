/-
  Why a class cannot be loaded.

  * `LoadError.notFound` is expected: the class is not there.  Anything else
    is a `failed` attempt, with its `LoadCause`;
  * `LoadError.message` says which class it was, `LoadCause.message?` why.
-/
import JvmClass.ClassPath.Archive
import JvmClass.Files.Tree
import JvmClass.Identifier
import JvmClass.Invalid

namespace JvmClass

/-- Why a class that is there cannot be loaded. -/
inductive LoadCause where
  /-- Its bytes are not a class file. -/
  | malformed (cause : Malformed)
  /-- Its class file is that of another class. -/
  | misnamed (declared expected : String)
  | unreadableFile (error : PathError)
  | unreadableEntry (error : ArchiveError)
  | refused

/-- Why loading a class failed. -/
inductive LoadError where
  | notFound (id : Identifier)
  | failed (id : Identifier) (cause : LoadCause)

/-- The text of a cause that lies in a class file. -/
def LoadCause.message? : LoadCause → Option String
  | malformed cause => (Error.malformed cause).message
  | misnamed declared expected => s!"class file declares {declared} instead of {expected}"
  | unreadableFile _ | unreadableEntry _ | refused => none

def LoadError.message : LoadError → String
  | notFound id => s!"class {id.binaryName} not found"
  | failed id _ => s!"unexpected failure loading class {id.binaryName}"

end JvmClass
