/-
  The record of a class: everything a class file says, with every reference
  into the constant pool resolved.

  * `ClassRecord` holds `FieldRecord`s and `MethodRecord`s; the body of a
    method is its `Code`;
  * inside a body, places are labels of instructions.
-/
import JvmClass.Attribute.Basic
import JvmClass.Frame.Basic

namespace JvmClass

/-- A field. -/
structure FieldRecord where
  access : Access
  name : String
  descriptor : String
  /-- The value that a static field starts with. -/
  value : Option Constant
  annotations : Annotations
  attributes : List Attribute

/-- A range of instructions and the handler of the exceptions thrown in it; no
    type catches all of them. -/
structure ExceptionHandler where
  start : Label
  stop : Label
  handler : Label
  catchType : Option String
  deriving DecidableEq, Repr

/-- The source line of the instructions from a label on. -/
structure LineNumber where
  start : Label
  line : UInt16
  deriving DecidableEq, Repr

/-- The name and the type of a local variable in a range of instructions. -/
structure LocalVariable where
  start : Label
  stop : Label
  name : String
  descriptor : String
  index : UInt16
  deriving DecidableEq, Repr

/-- The body of a method. -/
structure Code where
  maxStack : UInt16
  maxLocals : UInt16
  instructions : List Instruction
  exceptionTable : List ExceptionHandler
  lineNumbers : Option (List LineNumber)
  localVariables : Option (List LocalVariable)
  /-- The descriptors are generic signatures. -/
  localVariableTypes : Option (List LocalVariable)
  frames : Option Frames
  visibleTypeAnnotations : Option (List TypeAnnotation)
  invisibleTypeAnnotations : Option (List TypeAnnotation)
  attributes : List RawAttribute

/-- The label of the end of the code. -/
def Code.stop (code : Code) : Label := code.instructions.length

/-- A method; the code of an abstract or a native one is absent. -/
structure MethodRecord where
  access : Access
  name : String
  descriptor : String
  exceptions : List String
  code : Option Code
  annotations : Annotations
  attributes : List Attribute

/-- A class, an interface or a module. -/
structure ClassRecord where
  minorVersion : UInt16
  majorVersion : UInt16
  access : Access
  /-- The internal name, such as `java/lang/String`. -/
  name : String
  /-- Absent only for `java/lang/Object` and for modules. -/
  superName : Option String
  interfaces : List String
  fields : List FieldRecord
  methods : List MethodRecord
  sourceFile : Option String
  sourceDebugExtension : Option Bytes
  annotations : Annotations
  attributes : List Attribute

/-- The generic signature of a field. -/
def FieldRecord.signature? (field : FieldRecord) : Option String :=
  field.attributes.findSome? fun
    | .signature signature => some signature
    | _ => none

/-- The field `target` with the annotation lists that `source` has. -/
def FieldRecord.copyMetadata (source target : FieldRecord) : FieldRecord :=
  { target with annotations := source.annotations.copyOnto target.annotations }

/-- Whether the method is a constructor. -/
def MethodRecord.isConstructor (method : MethodRecord) : Bool := method.name == "<init>"

/-- The major version of Java 8. -/
def defaultMajorVersion : UInt16 := 52

/-- The class every other class descends from. -/
def objectClass : String := "java/lang/Object"

/-- A public Java 8 class below `java/lang/Object`, with nothing in it. -/
def ClassRecord.ofName (name : String) : ClassRecord where
  minorVersion := 0
  majorVersion := defaultMajorVersion
  access := ⟨0x0021⟩
  name := name
  superName := some objectClass
  interfaces := []
  fields := []
  methods := []
  sourceFile := none
  sourceDebugExtension := none
  annotations := .absent
  attributes := []

/-- The Java release that a class needs: 8 for version 52. -/
def ClassRecord.javaRelease (record : ClassRecord) : Nat := record.majorVersion.toNat - 44

end JvmClass
