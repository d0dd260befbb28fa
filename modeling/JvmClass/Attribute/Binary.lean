/-
  The contents of attributes in class files.

  * `Attribute.readClass`, `Attribute.readField` and `Attribute.readMethod`
    read the content of an attribute that stands in a class, a field or a
    method and has no place of its own in the record; one without a known
    meaning there is kept byte for byte;
  * `Shared` are the parts that classes, fields and methods have in common;
  * `Attribute.write` writes an attribute.
-/
import JvmClass.Annotation.Binary
import JvmClass.Attribute.Basic
import JvmClass.Attribute.Table

namespace JvmClass

/-- The annotations and the attributes read so far, the last attribute
    first. -/
structure Shared where
  annotations : Annotations
  attributesRev : List Attribute

namespace Shared

/-- Nothing read so far. -/
def empty : Shared := ⟨.absent, []⟩

/-- One more attribute. -/
def push (shared : Shared) (attr : Attribute) : Shared :=
  { shared with attributesRev := attr :: shared.attributesRev }

/-- The attributes in their order. -/
def attributes (shared : Shared) : List Attribute := shared.attributesRev.reverse

end Shared

namespace Attribute

/-! ## Reading -/

section
open Reader

variable (pool : Pool)

/-- Read an attribute byte for byte. -/
def readRaw (name : String) : Reader RawAttribute := do return ⟨name, ← takeRest⟩

/-- Read a counted list of class names. -/
def readClassNames : Reader (List String) := do
  times (← u2).toNat do pool.className (← u2)

/-- Read a class that a record mentions. -/
def readInnerClass : Reader InnerClass := do
  let name ← pool.className (← u2)
  let outerName ← pool.className? (← u2)
  let innerName ← pool.utf8? (← u2)
  return ⟨name, outerName, innerName, ⟨← u2⟩⟩

/-- Read the class and the method around a local class. -/
def readEnclosingMethod : Reader EnclosingMethod := do
  let owner ← pool.className (← u2)
  let index ← u2
  if index = 0 then return ⟨owner, none⟩
  return ⟨owner, some (← pool.nameAndType index)⟩

/-- Read the name and the flags of a formal parameter. -/
def readParameter : Reader MethodParameter := do
  let name ← pool.utf8? (← u2)
  return ⟨name, ⟨← u2⟩⟩

/-- Read an attribute that classes, fields and methods have in common; none
    if `name` is no such attribute. -/
def readShared? (name : String) (shared : Shared) : Option (Reader Shared) :=
  let annotations := shared.annotations
  if name = AttributeName.visibleAnnotations then some do
    let visible ← Annotations.readList pool
    return { shared with annotations := { annotations with visible := some visible } }
  else if name = AttributeName.invisibleAnnotations then some do
    let invisible ← Annotations.readList pool
    return { shared with annotations := { annotations with invisible := some invisible } }
  else if name = AttributeName.visibleTypeAnnotations then some do
    let visible ← Annotations.readTypeList pool none
    return { shared with annotations := { annotations with visibleType := some visible } }
  else if name = AttributeName.invisibleTypeAnnotations then some do
    let invisible ← Annotations.readTypeList pool none
    return { shared with annotations := { annotations with invisibleType := some invisible } }
  else if name = AttributeName.signature then some do
    return shared.push (.signature (← pool.utf8 (← u2)))
  else if name = AttributeName.deprecated then some (return shared.push .deprecated)
  else if name = AttributeName.synthetic then some (return shared.push .synthetic)
  else none

/-- Read an attribute that stands in a method only, or has no known meaning
    there. -/
def readMethod (name : String) : Reader Attribute := do
  if name = AttributeName.methodParameters then
    return .methodParameters (← times (← u1).toNat (readParameter pool))
  else if name = AttributeName.annotationDefault then
    return .annotationDefault (← Annotations.readValue pool)
  else if name = AttributeName.visibleParameterAnnotations then
    return .parameterAnnotations true (← times (← u1).toNat (Annotations.readList pool))
  else if name = AttributeName.invisibleParameterAnnotations then
    return .parameterAnnotations false (← times (← u1).toNat (Annotations.readList pool))
  else return .raw (← readRaw name)

/-- Read an attribute that stands in a class only, or has no known meaning
    there. -/
def readClass (name : String) : Reader Attribute := do
  if name = AttributeName.innerClasses then
    return .innerClasses (← times (← u2).toNat (readInnerClass pool))
  else if name = AttributeName.enclosingMethod then
    return .enclosingMethod (← readEnclosingMethod pool)
  else if name = AttributeName.nestHost then return .nestHost (← pool.className (← u2))
  else if name = AttributeName.nestMembers then return .nestMembers (← readClassNames pool)
  else if name = AttributeName.permittedSubclasses then
    return .permittedSubclasses (← readClassNames pool)
  else return .raw (← readRaw name)

end

/-! ## Writing -/

section
open Bytes Linking

/-- Write a counted list of class names. -/
def writeClassNames (names : List String) : Linking Bytes := do
  let count ← count names.length "classes"
  return u2 count ++ (← each (fun name => u2 <$> Pool.Intern.classRef name) names).flatten

/-- Write a class that a record mentions. -/
def writeInnerClass (inner : InnerClass) : Linking Bytes := do
  let name ← Pool.Intern.classRef inner.name
  let outerName ← Pool.Intern.classRef? inner.outerName
  let innerName ← Pool.Intern.utf8? inner.innerName
  return u2 name ++ u2 outerName ++ u2 innerName ++ u2 inner.access.bits

/-- Write the class and the method around a local class. -/
def writeEnclosingMethod (enclosing : EnclosingMethod) : Linking Bytes := do
  let owner ← Pool.Intern.classRef enclosing.owner
  match enclosing.method with
  | some (name, descriptor) => return u2 owner ++ u2 (← Pool.Intern.nameAndType name descriptor)
  | none => return u2 owner ++ u2 0

/-- Write the name and the flags of a formal parameter. -/
def writeParameter (parameter : MethodParameter) : Linking Bytes := do
  return u2 (← Pool.Intern.utf8? parameter.name) ++ u2 parameter.access.bits

/-- Write the content of an attribute. -/
def writeContent : Attribute → Linking Bytes
  | .raw attr => return attr.info
  | .signature text => return u2 (← Pool.Intern.utf8 text)
  | .deprecated | .synthetic => return []
  | .innerClasses classes => do
    let count ← count classes.length "inner classes"
    return u2 count ++ (← each writeInnerClass classes).flatten
  | .enclosingMethod enclosing => writeEnclosingMethod enclosing
  | .nestHost host => return u2 (← Pool.Intern.classRef host)
  | .nestMembers names | .permittedSubclasses names => writeClassNames names
  | .methodParameters parameters => do
    if parameters.length > 0xFF then throw (.methodParameters parameters.length)
    return UInt8.ofNat parameters.length :: (← each writeParameter parameters).flatten
  | .annotationDefault value => Annotations.writeValue value
  | .parameterAnnotations _ parameters => do
    if parameters.length > 0xFF then throw (.annotatedParameters parameters.length)
    return UInt8.ofNat parameters.length :: (← each Annotations.writeList parameters).flatten

/-- Write an attribute. -/
def write (attr : Attribute) : Linking Bytes := do
  AttributeTable.attr attr.name (← writeContent attr)

/-- Write the annotation lists that are present, as attributes. -/
def writeAnnotations (annotations : Annotations) : Linking (List Bytes) := do
  let visible ← AttributeTable.optional AttributeName.visibleAnnotations
    Annotations.writeList annotations.visible
  let invisible ← AttributeTable.optional AttributeName.invisibleAnnotations
    Annotations.writeList annotations.invisible
  let visibleType ← AttributeTable.optional AttributeName.visibleTypeAnnotations
    (Annotations.writeTypeList none) annotations.visibleType
  let invisibleType ← AttributeTable.optional AttributeName.invisibleTypeAnnotations
    (Annotations.writeTypeList none) annotations.invisibleType
  return visible ++ invisible ++ visibleType ++ invisibleType

end

end Attribute

end JvmClass
