/-
  Why a record cannot be written as a class file, or a method body cannot be
  analysed.

  * `Invalid` lists the causes; `inMethod` and `atInstruction` say where the
    cause inside them was found;
  * `Invalid.message` is the text of a cause;
  * `Error` is the cause of a failure of an operation that both reads and
    writes.
-/
import JvmClass.Flow.Value

namespace JvmClass

open Text

/-- A cause for which writing a record, or analysing a method body, fails. -/
inductive Invalid where
  | inMethod (name descriptor : String) (cause : Invalid)
  | atInstruction (index : Nat) (cause : Invalid)
  /-- A descriptor in the record does not parse. -/
  | badDescriptor (cause : Malformed)
  -- the class as a whole
  | noClassName
  | noFieldName (owner : String)
  | noMethodName (owner : String)
  /-- There are more of something than a class file can count. -/
  | tooMany (count : Nat) (what : String)
  | attributeLength (name : String) (length : Nat)
  | methodParameters (count : Nat)
  | annotatedParameters (count : Nat)
  -- the constant pool
  | poolFull
  | utf8Length (length : Nat)
  | handleKind (kind : UInt8)
  -- labels
  | labelPastEnd (label : Label)
  | jumpTarget (index : Nat) (label : Label)
  | handlerRange (start stop handler : Label) (count : Nat)
  | variableRange (name : String)
  | annotationRange
  | targetOutsideBody
  | pathLength (count : Nat)
  -- bytecode
  | codeLength (limit : Nat)
  | takesOperands (opcode : UInt8)
  | bytePush (value : Int16)
  | notPush (opcode : UInt8)
  | notVariable (opcode : UInt8)
  | branchDistance (distance : Int)
  | notJump (opcode : UInt8)
  | switchTargets (low high : Int32) (count : Nat)
  | duplicateKeys
  | notField (opcode : UInt8)
  | argumentSlots (count : Nat)
  | notInvocation (opcode : UInt8)
  | notClass (opcode : UInt8)
  | arrayType (atype : UInt8)
  | noDimensions
  -- frames
  | frameTarget (label : Label)
  | frameOrder
  | chopCount (count : UInt8)
  | appendCount (count : Nat)
  | newPastEnd
  -- the abstract interpretation
  | stackUnderflow
  | notOneSlot (value : Value)
  | localRange (index : UInt16)
  | notVariableInstruction (opcode : UInt8)
  | notFieldInstruction (opcode : UInt8)
  | notTypeInstruction (opcode : UInt8)
  | newArrayType (atype : UInt8)
  | notNew
  | stackHeights (left right : Nat)
  | entrySizes (left right : Value)
  | localSlots (count : Nat)
  | stackSlots (count : Nat)
  | subroutine
  | noConvergence
  | fallsOff

namespace Invalid

/-- The text for an operation code that is not what it should be. -/
def opcodeMessage (opcode : UInt8) (wrong : String) : String :=
  "opcode 0x" ++ hex opcode.toNat ++ " " ++ wrong

/-- The text of a cause. -/
def message : Invalid → String
  | inMethod name descriptor cause => s!"{name}{descriptor}: {cause.message}"
  | atInstruction index cause => s!"instruction {index}: {cause.message}"
  | badDescriptor cause => cause.message
  | noClassName => "class has no name"
  | noFieldName owner => s!"field without a name in {owner}"
  | noMethodName owner => s!"method without a name in {owner}"
  | tooMany count what => s!"{count} {what} do not fit a class file"
  | attributeLength name length => s!"{name} attribute of {length} bytes"
  | methodParameters count => s!"{count} method parameters"
  | annotatedParameters count => s!"annotations for {count} parameters"
  | poolFull => "constant pool exceeds 65534 entries"
  | utf8Length length => s!"string constant of {length} bytes does not fit a Utf8 entry"
  | handleKind kind => s!"invalid method handle kind {kind}"
  | labelPastEnd label => s!"label {label} is past the end of the code"
  | jumpTarget index label =>
    s!"instruction {index} jumps to label {label} past the last instruction"
  | handlerRange start stop handler count =>
    s!"exception handler covering labels {start}..{stop} with handler {handler}" ++
      s!" does not fit {count} instructions"
  | variableRange name => s!"local variable {name} ends before it starts"
  | annotationRange => "local variable range ends before it starts"
  | targetOutsideBody => "type annotation refers to instructions outside of a method body"
  | pathLength count => s!"type path of {count} entries"
  | codeLength limit => s!"code is longer than {limit} bytes"
  | takesOperands opcode => opcodeMessage opcode "takes operands"
  | bytePush value => s!"bipush of {value.toInt}"
  | notPush opcode => opcodeMessage opcode "does not push an int"
  | notVariable opcode => opcodeMessage opcode "does not access a local variable"
  | branchDistance distance => s!"branch of {distance} bytes does not fit a 16-bit offset"
  | notJump opcode => opcodeMessage opcode "is not a jump"
  | switchTargets low high count =>
    s!"tableswitch {low.toInt}..={high.toInt} with {count} targets"
  | duplicateKeys => "lookupswitch with duplicate keys"
  | notField opcode => opcodeMessage opcode "does not access a field"
  | argumentSlots count => s!"invokeinterface with {count} argument slots"
  | notInvocation opcode => opcodeMessage opcode "does not invoke a method"
  | notClass opcode => opcodeMessage opcode "does not take a class"
  | arrayType atype => s!"newarray of type {atype}"
  | noDimensions => "multianewarray without dimensions"
  | frameTarget label => s!"stack map frame at label {label} is past the last instruction"
  | frameOrder => "stack map frames are not in increasing offset order"
  | chopCount count => s!"chop frame removing {count} locals"
  | appendCount count => s!"append frame adding {count} locals"
  | newPastEnd => "uninitialized value created past the last instruction"
  | stackUnderflow => "operand stack underflow"
  | notOneSlot value => s!"{value.describe} used where a one-slot value is expected"
  | localRange index => s!"local variable {index} out of range"
  | notVariableInstruction opcode => opcodeMessage opcode "is not a local variable instruction"
  | notFieldInstruction opcode => opcodeMessage opcode "is not a field instruction"
  | notTypeInstruction opcode => opcodeMessage opcode "is not a type instruction"
  | newArrayType atype => s!"invalid newarray type {atype}"
  | notNew => "uninitialized value does not come from a new instruction"
  | stackHeights left right =>
    s!"operand stack height differs between paths ({left} and {right})"
  | entrySizes left right =>
    s!"operand stack entries {left.describe} and {right.describe} differ in size"
  | localSlots count => s!"{count} local variable slots"
  | stackSlots count => s!"operand stack of {count} slots"
  | subroutine => "jsr and ret cannot be combined with frame computation"
  | noConvergence => "frame analysis does not converge"
  | fallsOff => "execution falls off the end of the code"

end Invalid

/-- The cause of a failure of an operation that both reads and writes. -/
inductive Error where
  | malformed (cause : Malformed)
  | invalid (cause : Invalid)

/-- The text of a failure: which side failed, and why. -/
def Error.message : Error → String
  | malformed cause => "malformed class file: " ++ cause.message
  | invalid cause => "invalid class record: " ++ cause.message

end JvmClass
