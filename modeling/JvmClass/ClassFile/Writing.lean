/-
  Writing class files.

  * `ClassFile.encode` turns a record into the bytes of a class file;
  * the constant pool is built anew, in the order in which the record is
    walked: the class, its interfaces, fields, methods and attributes, and the
    bootstrap method table last;
  * `ClassFile.questions` are the questions about classes that are asked on the
    way, and `Body.questions` those about one method body.
-/
import JvmClass.Body.Writing
import JvmClass.ClassFile.Reading
import JvmClass.Flow.Questions

namespace JvmClass

namespace ClassFile

open Bytes Linking

/-- Write the attributes that classes, fields and methods have in common. -/
def writeShared (annotations : Annotations) (attributes : List Attribute) :
    Linking (List Bytes) := do
  let first ← Attribute.writeAnnotations annotations
  return first ++ (← each Attribute.write attributes)

/-- Write a field of the class `owner`. -/
def writeField (owner : String) (field : FieldRecord) : Linking Bytes := do
  if field.name.isEmpty then throw (.noFieldName owner)
  let name ← Pool.Intern.utf8 field.name
  let descriptor ← Pool.Intern.utf8 field.descriptor
  let value ← AttributeTable.optional AttributeName.constantValue
    (fun value => u2 <$> constant value) field.value
  let shared ← writeShared field.annotations field.attributes
  return u2 field.access.bits ++ u2 name ++ u2 descriptor ++
    (← AttributeTable.write (value ++ shared))

/-- Write the names of the exceptions that a method declares, if there are
    any. -/
def writeExceptions (exceptions : List String) : Linking (List Bytes) :=
  AttributeTable.optional AttributeName.exceptions Attribute.writeClassNames
    (if exceptions.isEmpty then none else some exceptions)

/-- Write a method, its body by way of `writeBody`. -/
def writeMethod (writeBody : MethodRecord → Code → Linking Bytes) (owner : String)
    (method : MethodRecord) : Linking Bytes := do
  if method.name.isEmpty then throw (.noMethodName owner)
  let name ← Pool.Intern.utf8 method.name
  let descriptor ← Pool.Intern.utf8 method.descriptor
  let code ← AttributeTable.optional AttributeName.code (writeBody method) method.code
  let exceptions ← writeExceptions method.exceptions
  let shared ← writeShared method.annotations method.attributes
  return u2 method.access.bits ++ u2 name ++ u2 descriptor ++
    (← AttributeTable.write (code ++ exceptions ++ shared))

/-- Write a row of the bootstrap method table. -/
def writeBootstrapRow (row : BootstrapRow) : Except Invalid Bytes := do
  let count ← count row.arguments.length "bootstrap arguments"
  return u2 row.handle ++ u2 count ++ row.arguments.flatMap u2

/-- Write the bootstrap method table, if it has rows. -/
def writeBootstraps : Linking (List Bytes) := do
  let rows := (← get).rows.toList
  if rows.isEmpty then return []
  let count ← count rows.length "bootstrap methods"
  let content ← Linking.ofExcept (rows.mapM writeBootstrapRow)
  return [← AttributeTable.attr AttributeName.bootstrapMethods (u2 count ++ content.flatten)]

/-- Write everything after the constant pool. -/
def writeClass (writeBody : MethodRecord → Code → Linking Bytes) (record : ClassRecord) :
    Linking Bytes := do
  let name ← Pool.Intern.classRef record.name
  let superName ← Pool.Intern.classRef? record.superName
  let interfaceCount ← count record.interfaces.length "interfaces"
  let interfaces ← each (fun name => u2 <$> Pool.Intern.classRef name) record.interfaces
  let fieldCount ← count record.fields.length "fields"
  let fields ← each (writeField record.name) record.fields
  let methodCount ← count record.methods.length "methods"
  let methods ← each (writeMethod writeBody record.name) record.methods
  let sourceFile ← AttributeTable.optional AttributeName.sourceFile
    (fun file => u2 <$> Pool.Intern.utf8 file) record.sourceFile
  let extension ← AttributeTable.optional AttributeName.sourceDebugExtension pure
    record.sourceDebugExtension
  let shared ← writeShared record.annotations record.attributes
  let bootstraps ← writeBootstraps
  let table ← AttributeTable.write (sourceFile ++ extension ++ shared ++ bootstraps)
  return u2 record.access.bits ++ u2 name ++ u2 superName ++
    u2 interfaceCount ++ interfaces.flatten ++ u2 fieldCount ++ fields.flatten ++
    u2 methodCount ++ methods.flatten ++ table

/-- The class file of a record, with what the options ask for. -/
def encode (record : ClassRecord) (options : EncodeOptions) (hierarchy : Hierarchy) :
    Except Invalid Bytes :=
  if record.name.isEmpty then throw .noClassName
  else
    let writeBody := Body.write options hierarchy record.name record.majorVersion
    match writeClass writeBody record .empty with
    | .error cause _ => throw cause
    | .ok body linker => do
      let pool ← linker.pool.write
      return u4 magic ++ u2 record.minorVersion ++ u2 record.majorVersion ++ pool ++ body

end ClassFile

/-! ## Questions -/

/-- What is asked to write a method body of the class `owner`. -/
def Body.questions (options : EncodeOptions) (hierarchy : Hierarchy) (owner : String)
    (majorVersion : UInt16) (method : MethodRecord) (code : Code) : List Question :=
  if options.computeMaxs || options.computeFrames then
    Flow.questions hierarchy owner method code
      (options.computeFrames && framesVersion ≤ majorVersion)
  else []

/-- What is asked to write a class file. -/
def ClassFile.questions (record : ClassRecord) (options : EncodeOptions) (hierarchy : Hierarchy) :
    List Question :=
  record.methods.flatMap fun method => method.code.toList.flatMap
    (Body.questions options hierarchy record.name record.majorVersion method)

end JvmClass
