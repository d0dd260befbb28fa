/-
  Annotations.

  * an `Annotation` gives values to the elements of an annotation interface,
    `ElementValue` is such a value and may hold annotations itself;
  * a `TypeAnnotation` annotates a type in a declaration or in a method body,
    where its `Target` refers to instructions by labels;
  * `Annotations` are the annotations of a class, a field or a method.
-/
import JvmClass.Instruction.Basic

namespace JvmClass

/-- The value of an element of an annotation.  Floating-point numbers are kept
    as their bits. -/
inductive ElementValue where
  | byte (value : Int8)
  | char (unit : UInt16)
  | double (bits : UInt64)
  | float (bits : UInt32)
  | int (value : Int32)
  | long (value : Int64)
  | short (value : Int16)
  | boolean (value : Bool)
  | string (value : String)
  | enum (descriptor name : String)
  /-- A class literal, by its return descriptor. -/
  | classLiteral (descriptor : String)
  | nested (descriptor : String) (values : List (String × ElementValue))
  | array (values : List ElementValue)

/-- An annotation: the descriptor of its interface and its named values. -/
structure Annotation where
  descriptor : String
  values : List (String × ElementValue)

/-- A step from a type to a part of it. -/
structure TypePathEntry where
  kind : UInt8
  argumentIndex : UInt8
  deriving DecidableEq, Repr

/-- The instructions from `start` to before `stop` in which a type annotation
    concerns the local variable `index`. -/
structure VariableRange where
  start : Label
  stop : Label
  index : UInt16
  deriving DecidableEq, Repr

/-- What a type annotation annotates.  `type` is the tag of the target where
    one shape stands for several. -/
inductive TypeAnnotation.Target where
  | typeParameter (type index : UInt8)
  | supertype (index : UInt16)
  | bound (type parameter bound : UInt8)
  | empty (type : UInt8)
  | formalParameter (index : UInt8)
  | throws (index : UInt16)
  | localVariable (type : UInt8) (ranges : List VariableRange)
  /-- An entry of the exception table. -/
  | catch (index : UInt16)
  | offset (type : UInt8) (label : Label)
  | typeArgument (type : UInt8) (label : Label) (index : UInt8)
  deriving DecidableEq, Repr

/-- An annotation of a type. -/
structure TypeAnnotation where
  target : TypeAnnotation.Target
  path : List TypePathEntry
  content : Annotation

/-- The annotations of a class, a field or a method.  A list that is absent
    differs from an empty one. -/
structure Annotations where
  visible : Option (List Annotation)
  invisible : Option (List Annotation)
  visibleType : Option (List TypeAnnotation)
  invisibleType : Option (List TypeAnnotation)

namespace Annotations

/-- No list of annotations. -/
def absent : Annotations := ⟨.none, .none, .none, .none⟩

/-- Whether every list is absent. -/
def isEmpty (a : Annotations) : Bool :=
  a.visible.isNone && a.invisible.isNone && a.visibleType.isNone && a.invisibleType.isNone

/-- The lists of `source`, and those of `target` where `source` has none. -/
def copyOnto (source target : Annotations) : Annotations where
  visible := source.visible <|> target.visible
  invisible := source.invisible <|> target.invisible
  visibleType := source.visibleType <|> target.visibleType
  invisibleType := source.invisibleType <|> target.invisibleType

end Annotations

end JvmClass
