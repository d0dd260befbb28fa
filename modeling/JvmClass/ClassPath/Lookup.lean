/-
  Looking classes up.

  * a `ClassPath` is a list of sources; `ClassPath.read` takes the class file
    from the first one that does not say that it has none;
  * `ClassPath.load` decodes it as well, and refuses a class file that is
    another class's.
-/
import JvmClass.ClassFile.Reading
import JvmClass.ClassPath.Source

namespace JvmClass

/-- Sources that are searched in order. -/
abbrev ClassPath := List Source

namespace ClassPath

/-- The class file of a class, from the first source that has one. -/
def read : ClassPath → Identifier → Except LoadError Bytes
  | [], id => .error (.notFound id)
  | source :: rest, id =>
    match source.read id with
    | .error (.notFound _) => read rest id
    | answer => answer

/-- The record in the class file of a class. -/
def decodeAs (id : Identifier) (bytes : Bytes) : Except LoadError ClassRecord :=
  match ClassFile.decode bytes {} with
  | .error cause => .error (.failed id (.malformed cause))
  | .ok record =>
    if record.name = id.internalName then .ok record
    else .error (.failed id (.misnamed record.name id.internalName))

/-- The record of a class, if some source has the class. -/
def load (path : ClassPath) (id : Identifier) : Except LoadError (Option ClassRecord) :=
  match path.read id with
  | .ok bytes => some <$> decodeAs id bytes
  | .error (.notFound _) => .ok none
  | .error e => .error e

/-- A bound on the number of classes that there are. -/
def capacity (path : ClassPath) : Nat := (path.map Source.capacity).foldr (· + ·) 0

end ClassPath

end JvmClass
