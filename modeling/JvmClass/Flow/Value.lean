/-
  Values of the abstract interpretation.

  * a `Value` is a verification type or the return address that `jsr` pushes,
    which no frame shows;
  * `Value.ofDescriptor` and `Value.ofConstant` are the values of a type and
    of a constant.
-/
import JvmClass.Frame.Basic

namespace JvmClass

/-- What is known about a local variable or an operand while a method body is
    run. -/
inductive Value where
  | known (type : VerificationType)
  | returnAddress
  deriving DecidableEq, Repr

namespace Value

/-- An instance of the class `name`. -/
abbrev object (name : String) : Value := known (.object name)

abbrev top : Value := known .top
abbrev integer : Value := known .integer
abbrev float : Value := known .float
abbrev long : Value := known .long
abbrev double : Value := known .double
abbrev null : Value := known .null
abbrev uninitializedThis : Value := known .uninitializedThis
abbrev uninitialized (label : Label) : Value := known (.uninitialized label)

/-- What a frame shows of a value. -/
def verificationType : Value → VerificationType
  | known type => type
  | returnAddress => .top

/-- Whether a value takes two slots. -/
def isWide : Value → Bool
  | known type => type.isWide
  | returnAddress => false

/-- How many slots a value takes. -/
def size (value : Value) : Nat := if value.isWide then 2 else 1

/-- The value as a text. -/
def describe : Value → String
  | known type => type.describe
  | returnAddress => "ReturnAddress"

/-- The value of a type. -/
def ofType (type : FieldType) : Value := known type.verificationType

/-- The value of the type that `descriptor` is the descriptor of. -/
def ofDescriptor (descriptor : String) : Except Malformed Value :=
  (FieldType.ofDescriptor descriptor).map ofType

/-- The value of a constant. -/
def ofConstant : Constant → Except Malformed Value
  | .integer _ => return integer
  | .float _ => return float
  | .long _ => return long
  | .double _ => return double
  | .string _ => return object "java/lang/String"
  | .classRef _ => return object "java/lang/Class"
  | .methodType _ => return object "java/lang/invoke/MethodType"
  | .handle _ => return object "java/lang/invoke/MethodHandle"
  | .dynamic _ descriptor _ _ => ofDescriptor descriptor

end Value

end JvmClass
