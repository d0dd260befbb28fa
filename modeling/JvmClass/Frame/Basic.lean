/-
  Stack map frames.

  * `VerificationType` is what a frame knows about a local variable or an
    operand; a `long` or a `double` stands for both of its slots;
  * `Frame` spells out the locals and the stack at an instruction, `DeltaFrame`
    says how they differ from those of the frame before;
  * `Frames` is the content of a stack map table in one of the two forms.
-/
import JvmClass.Descriptor
import JvmClass.Instruction.Basic
import JvmClass.Text.Quoted

namespace JvmClass

/-- What is known about a local variable or an operand. -/
inductive VerificationType where
  | top | integer | float | double | long | null | uninitializedThis
  /-- An instance of a class; an array type is given by its descriptor. -/
  | object (name : String)
  /-- What the `new` instruction at a label left, before its constructor ran. -/
  | uninitialized (label : Label)
  deriving DecidableEq, Repr

namespace VerificationType

/-- Whether a value takes two slots. -/
def isWide : VerificationType → Bool
  | long | double => true
  | _ => false

/-- How many slots a value takes. -/
def size (type : VerificationType) : Nat := if type.isWide then 2 else 1

/-- The type as a text: `Object("a/B")`. -/
def describe : VerificationType → String
  | top => "Top"
  | integer => "Integer"
  | float => "Float"
  | double => "Double"
  | long => "Long"
  | null => "Null"
  | uninitializedThis => "UninitializedThis"
  | object name => "Object(" ++ Text.quote name ++ ")"
  | uninitialized label => s!"Uninitialized(Label({label}))"

end VerificationType

/-- What is known about a value of a type. -/
def FieldType.verificationType : FieldType → VerificationType
  | base .float => .float
  | base .long => .long
  | base .double => .double
  | base _ => .integer
  | object className => .object className
  | array component => .object (array component).descriptor

/-- A frame with its locals and its stack spelled out. -/
structure Frame where
  target : Label
  locals : List VerificationType
  stack : List VerificationType
  deriving DecidableEq, Repr

/-- A frame by its difference from the frame before. -/
inductive DeltaFrame where
  /-- The same locals and an empty stack. -/
  | same (target : Label)
  /-- The same locals and one operand. -/
  | sameOne (target : Label) (operand : VerificationType)
  /-- The last `count` locals are gone, the stack is empty. -/
  | chop (target : Label) (count : UInt8)
  /-- Locals are added, the stack is empty. -/
  | append (target : Label) (locals : List VerificationType)
  | full (target : Label) (locals stack : List VerificationType)
  deriving DecidableEq, Repr

/-- The instruction that a frame describes. -/
def DeltaFrame.target : DeltaFrame → Label
  | same target | sameOne target _ | chop target _ | append target _ | full target _ _ => target

/-- The content of a stack map table. -/
inductive Frames where
  | compressed (frames : List DeltaFrame)
  | expanded (frames : List Frame)
  deriving DecidableEq, Repr

/-- The number of frames. -/
def Frames.length : Frames → Nat
  | compressed frames => frames.length
  | expanded frames => frames.length

end JvmClass
