/-
  The listing of a class.

  * `listing` is what the tool prints of a class: its name, what it extends and
    implements, its fields and its methods, a line each.
-/
import JvmClass.Record

namespace JvmClass.Tool

/-- The names of flags, with blanks between them. -/
def flags (access : Access) (place : Access.Place) : String :=
  " ".intercalate (access.names place)

/-- The line of a field. -/
def fieldLine (field : FieldRecord) : String :=
  s!"  field {flags field.access .onField} {field.name} {field.descriptor}"

/-- The sizes of a method body. -/
def sizes (code : Code) : String :=
  s!" [stack {code.maxStack}, locals {code.maxLocals}, {code.instructions.length} instructions]"

/-- The line of a method. -/
def methodLine (method : MethodRecord) : String :=
  s!"  method {flags method.access .onMethod} {method.name}{method.descriptor}" ++
    (method.code.map sizes).getD ""

/-- The line of the class itself. -/
def classLine (record : ClassRecord) : String :=
  s!"{flags record.access .onClass} {record.name}" ++
    s!" (version {record.majorVersion}.{record.minorVersion})"

/-- The lines that are printed of a class. -/
def listing (record : ClassRecord) : List String :=
  classLine record ::
    (record.superName.toList.map fun name => s!"  extends {name}") ++
    (record.interfaces.map fun name => s!"  implements {name}") ++
    (record.sourceFile.toList.map fun name => s!"  source {name}") ++
    record.fields.map fieldLine ++ record.methods.map methodLine

end JvmClass.Tool
