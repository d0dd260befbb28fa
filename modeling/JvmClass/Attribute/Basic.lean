/-
  Attributes of classes, fields and methods.

  * an `Attribute` is one that the format of class files describes and that
    has no place of its own in a record, or a `RawAttribute` that is kept byte
    for byte;
  * `Attribute.name` is its name in a class file; `AttributeName` holds the
    names of all attributes with a meaning of their own.
-/
import JvmClass.Access
import JvmClass.Annotation.Basic
import JvmClass.Bytes.BigEndian

namespace JvmClass

namespace AttributeName

abbrev code : String := "Code"
abbrev constantValue : String := "ConstantValue"
abbrev stackMapTable : String := "StackMapTable"
abbrev exceptions : String := "Exceptions"
abbrev innerClasses : String := "InnerClasses"
abbrev enclosingMethod : String := "EnclosingMethod"
abbrev synthetic : String := "Synthetic"
abbrev signature : String := "Signature"
abbrev sourceFile : String := "SourceFile"
abbrev sourceDebugExtension : String := "SourceDebugExtension"
abbrev lineNumberTable : String := "LineNumberTable"
abbrev localVariableTable : String := "LocalVariableTable"
abbrev localVariableTypeTable : String := "LocalVariableTypeTable"
abbrev deprecated : String := "Deprecated"
abbrev visibleAnnotations : String := "RuntimeVisibleAnnotations"
abbrev invisibleAnnotations : String := "RuntimeInvisibleAnnotations"
abbrev visibleParameterAnnotations : String := "RuntimeVisibleParameterAnnotations"
abbrev invisibleParameterAnnotations : String := "RuntimeInvisibleParameterAnnotations"
abbrev visibleTypeAnnotations : String := "RuntimeVisibleTypeAnnotations"
abbrev invisibleTypeAnnotations : String := "RuntimeInvisibleTypeAnnotations"
abbrev annotationDefault : String := "AnnotationDefault"
abbrev bootstrapMethods : String := "BootstrapMethods"
abbrev methodParameters : String := "MethodParameters"
abbrev nestHost : String := "NestHost"
abbrev nestMembers : String := "NestMembers"
abbrev permittedSubclasses : String := "PermittedSubclasses"

end AttributeName

/-- An attribute that is kept byte for byte. -/
structure RawAttribute where
  name : String
  info : Bytes
  deriving DecidableEq, Repr

/-- A member class, or a class that a record otherwise mentions. -/
structure InnerClass where
  name : String
  outerName : Option String
  innerName : Option String
  access : Access
  deriving DecidableEq, Repr

/-- The class around a local class, and the name and the descriptor of the
    method around it. -/
structure EnclosingMethod where
  owner : String
  method : Option (String × String)
  deriving DecidableEq, Repr

/-- The name and the flags of a formal parameter. -/
structure MethodParameter where
  name : Option String
  access : Access
  deriving DecidableEq, Repr

/-- An attribute of a class, a field or a method. -/
inductive Attribute where
  | raw (attr : RawAttribute)
  | signature (signature : String)
  | deprecated
  | synthetic
  | innerClasses (classes : List InnerClass)
  | enclosingMethod (enclosing : EnclosingMethod)
  | nestHost (host : String)
  | nestMembers (names : List String)
  | permittedSubclasses (names : List String)
  | methodParameters (parameters : List MethodParameter)
  | annotationDefault (value : ElementValue)
  | parameterAnnotations (visible : Bool) (parameters : List (List Annotation))

/-- The name of an attribute in a class file. -/
def Attribute.name : Attribute → String
  | raw attr => attr.name
  | signature _ => AttributeName.signature
  | deprecated => AttributeName.deprecated
  | synthetic => AttributeName.synthetic
  | innerClasses _ => AttributeName.innerClasses
  | enclosingMethod _ => AttributeName.enclosingMethod
  | nestHost _ => AttributeName.nestHost
  | nestMembers _ => AttributeName.nestMembers
  | permittedSubclasses _ => AttributeName.permittedSubclasses
  | methodParameters _ => AttributeName.methodParameters
  | annotationDefault _ => AttributeName.annotationDefault
  | parameterAnnotations true _ => AttributeName.visibleParameterAnnotations
  | parameterAnnotations false _ => AttributeName.invisibleParameterAnnotations

end JvmClass
