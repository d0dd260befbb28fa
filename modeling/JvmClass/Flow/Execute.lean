/-
  Running single instructions on abstract states.

  * `Flow.simple` runs an instruction without operands;
  * `Flow.execute` runs any instruction of a method body; branches only take
    their operands off the stack.
-/
import JvmClass.Flow.StackOp
import JvmClass.Record

namespace JvmClass.Flow

open FlowStep

/-- Whether a class name is the descriptor of an array type. -/
def isArrayName (name : String) : Bool := name.toList.head? == some '['

/-- The name of the array class with elements of the class `name`. -/
def arrayOf (name : String) : String :=
  if isArrayName name then "[" ++ name else "[L" ++ name ++ ";"

/-- Replace one operand by `result`. -/
def unary (result : Value) : FlowStep Unit := do
  let _ ← pop
  push result

/-- Replace two operands by `result`. -/
def binary (result : Value) : FlowStep Unit := do
  popMany 2
  push result

/-- The value at an index of an array. -/
def arrayElement : Value → FlowStep Value
  | .known (.object name) =>
    if isArrayName name then ofDescriptor (Value.ofDescriptor (String.ofList name.toList.tail))
    else return .object objectClass
  | .known .null => return .null
  | _ => return .object objectClass

/-- The type that arithmetic instructions work on: they come in groups of
    `int`, `long`, `float` and `double`. -/
def arithmeticType (offset : UInt8) : Value :=
  match offset % 4 with
  | 0 => .integer
  | 1 => .long
  | 2 => .float
  | _ => .double

/-- The result of a conversion between primitive types. -/
def conversionType (opcode : UInt8) : Value :=
  match opcode with
  | 0x85 | 0x8c | 0x8f => .long
  | 0x86 | 0x89 | 0x90 => .float
  | 0x87 | 0x8a | 0x8d => .double
  | _ => .integer

/-- Run an instruction without operands. -/
def simple (opcode : UInt8) : FlowStep Unit := do
  match StackOp.ofOpcode? opcode with
  | some op => op.run
  | none =>
    if opcode = Opcode.nop then return
    else if opcode = Opcode.aconstNull then push .null
    else if opcode ≤ 0x08 then push .integer
    else if opcode ≤ 0x0a then push .long
    else if opcode ≤ 0x0d then push .float
    else if opcode ≤ 0x0f then push .double
    else if opcode < 0x2e then throw (.takesOperands opcode)
    else if opcode = 0x2f then binary .long
    else if opcode = 0x30 then binary .float
    else if opcode = 0x31 then binary .double
    else if opcode = 0x32 then
      let _ ← popOne
      push (← arrayElement (← popOne))
    else if opcode ≤ 0x35 then binary .integer
    else if opcode < 0x4f then throw (.takesOperands opcode)
    else if opcode ≤ 0x56 then popMany 3
    else if opcode ≤ 0x73 then binary (arithmeticType (opcode - 0x60))
    else if opcode ≤ 0x77 then unary (arithmeticType (opcode - 0x74))
    else if opcode ≤ 0x83 then binary (if (opcode - 0x78) % 2 = 0 then .integer else .long)
    else if opcode = Opcode.iinc then throw (.takesOperands opcode)
    else if opcode ≤ 0x93 then unary (conversionType opcode)
    else if opcode ≤ 0x98 then binary .integer
    else if opcode < Opcode.ireturn then throw (.takesOperands opcode)
    else if opcode < Opcode.returnVoid then popMany 1
    else if opcode = Opcode.returnVoid then return
    else if opcode = 0xbe then unary .integer
    else if opcode = Opcode.athrow ∨ opcode = 0xc2 ∨ opcode = 0xc3 then popMany 1
    else throw (.takesOperands opcode)

/-- Run a load, a store or `ret`. -/
def var (opcode : UInt8) (index : UInt16) : FlowStep Unit := do
  if opcode = Opcode.iload then push .integer
  else if opcode = Opcode.lload then push .long
  else if opcode = Opcode.fload then push .float
  else if opcode = Opcode.dload then push .double
  else if opcode = Opcode.aload then push (← load index)
  else if Opcode.istore ≤ opcode ∧ opcode ≤ Opcode.astore then store index (← pop)
  else if opcode = Opcode.ret then
    let _ ← load index
  else throw (.notVariableInstruction opcode)

/-- Take the operands of a jump. -/
def jump (opcode : UInt8) : FlowStep Unit := do
  if 0x99 ≤ opcode ∧ opcode ≤ 0x9e ∨ opcode = Opcode.ifnull ∨ opcode = Opcode.ifnonnull then
    let _ ← popOne
  else if 0x9f ≤ opcode ∧ opcode ≤ 0xa6 then popMany 2
  else if opcode = Opcode.goto ∨ opcode = Opcode.gotoW ∨ opcode = Opcode.jsr ∨
      opcode = Opcode.jsrW then
    return
  else throw (.notJump opcode)

/-- Run an access to a field. -/
def field (opcode : UInt8) (member : Member) : FlowStep Unit := do
  let value ← ofDescriptor (Value.ofDescriptor member.descriptor)
  if opcode = Opcode.getstatic then push value
  else if opcode = Opcode.putstatic then popMany 1
  else if opcode = Opcode.getfield then
    let _ ← popOne
    push value
  else if opcode = Opcode.putfield then popMany 2
  else throw (.notFieldInstruction opcode)

/-- Push the result of a method. -/
def pushResult (type : MethodType) : FlowStep Unit :=
  match type.result with
  | some result => push (.ofType result)
  | none => return ()

/-- The class that the `new` instruction at `label` makes an instance of. -/
def newClass (instructions : Array Instruction) (label : Label) : Except Invalid String :=
  match instructions[label]? with
  | some (.type opcode className) =>
    if opcode = Opcode.new then return className else throw .notNew
  | _ => throw .notNew

/-- What a constructor of the class `callee` leaves of its receiver. -/
def constructed (owner : String) (instructions : Array Instruction) (callee : String) :
    Value → Except Invalid Value
  | .known .uninitializedThis => return .object owner
  | .known (.uninitialized label) => return .object (← newClass instructions label)
  | _ => return .object callee

/-- Run the call of a method. -/
def method (owner : String) (instructions : Array Instruction) (opcode : UInt8)
    (member : Member) : FlowStep Unit := do
  let type ← ofDescriptor (MethodType.ofDescriptor member.descriptor)
  popMany type.parameters.length
  unless opcode = Opcode.invokestatic do
    let receiver ← popOne
    if opcode = Opcode.invokespecial ∧ member.name = "<init>" then
      replace receiver (← constructed owner instructions member.owner receiver)
  pushResult type

/-- Run `new`, `anewarray`, `checkcast` or `instanceof` at the label `index`. -/
def type (index : Label) (opcode : UInt8) (className : String) : FlowStep Unit := do
  if opcode = Opcode.new then push (.uninitialized index)
  else if opcode = Opcode.anewarray then
    let _ ← popOne
    push (.object (arrayOf className))
  else if opcode = Opcode.checkcast then
    let _ ← popOne
    push (.object className)
  else if opcode = Opcode.instanceof then
    let _ ← popOne
    push .integer
  else throw (.notTypeInstruction opcode)

/-- The array type that `newarray` makes. -/
def primitiveArray (atype : UInt8) : Except Invalid String :=
  match atype with
  | 4 => return "[Z"
  | 5 => return "[C"
  | 6 => return "[F"
  | 7 => return "[D"
  | 8 => return "[B"
  | 9 => return "[S"
  | 10 => return "[I"
  | 11 => return "[J"
  | _ => throw (.newArrayType atype)

/-- Run the instruction at the label `index` in a method body of the class
    `owner`. -/
def execute (owner : String) (instructions : Array Instruction) (index : Label) :
    Instruction → FlowStep Unit
  | .simple opcode => simple opcode
  | .push .. => push .integer
  | .ldc constant => do push (← ofDescriptor (Value.ofConstant constant))
  | .var opcode slot => var opcode slot
  | .iinc slot _ => store slot .integer
  | .jump opcode _ => jump opcode
  | .tableSwitch .. | .lookupSwitch .. => do
    let _ ← popOne
  | .field opcode member => field opcode member
  | .method opcode member _ => method owner instructions opcode member
  | .invokeDynamic _ descriptor _ => do
    let type ← ofDescriptor (MethodType.ofDescriptor descriptor)
    popMany type.parameters.length
    pushResult type
  | .type opcode className => type index opcode className
  | .newArray atype => do
    let _ ← popOne
    push (.object (← primitiveArray atype))
  | .multiNewArray className dimensions => do
    popMany dimensions.toNat
    push (.object className)

end JvmClass.Flow
