/-
  Writing bytecode.

  * `Bytecode.operand` is the index of the pool entry that an instruction
    refers to;
  * `Bytecode.size` is the length of an instruction at an offset, and
    `Bytecode.layout` lays out a list of instructions;
  * `Bytecode.emit` writes an instruction at its place in a layout;
  * `Bytecode.encode` does all three: the entries come first, since the length
    of a `ldc` depends on an index, and the layout before the bytes, since
    branches go forward.
-/
import JvmClass.Bytecode.Reading
import JvmClass.Linkage.Builder

namespace JvmClass.Bytecode

open Bytes

/-- The longest code that the offsets in a class file can reach into. -/
def maxLength : Nat := 0xFFFF

/-- Whether a number fits a signed byte. -/
def fitsByte (value : Int16) : Bool := -128 ≤ value && value ≤ 127

/-- The index of the pool entry that an instruction refers to, 0 if none. -/
def operand : Instruction → Linking UInt16
  | .ldc constant => Linking.constant constant
  | .field _ member => Pool.Intern.fieldRef member
  | .method _ member interface => Pool.Intern.methodRef member interface
  | .invokeDynamic name descriptor bootstrap => do
    Pool.Intern.invokeDynamic (← Linking.bootstrapMethod bootstrap) name descriptor
  | .type _ className | .multiNewArray className _ => Pool.Intern.classRef className
  | _ => return 0

/-! ## Layout -/

/-- How many zeros follow the code of a switch at `offset`, so that its operands
    start at a multiple of four. -/
def switchPadding (offset : Nat) : Nat := 3 - offset % 4

/-- The length of an instruction with the pool index `operand` at `offset`. -/
def size (operand : UInt16) (offset : Nat) : Instruction → Nat
  | .simple _ => 1
  | .push opcode _ => if opcode = Opcode.bipush then 2 else 3
  | .ldc constant => if constant.isWide ∨ operand > 0xFF then 3 else 2
  | .var opcode index =>
    if opcode = Opcode.ret then if index ≤ 0xFF then 2 else 4
    else if index ≤ 3 then 1
    else if index ≤ 0xFF then 2
    else 4
  | .iinc index increment => if index ≤ 0xFF ∧ fitsByte increment then 3 else 6
  | .jump opcode _ => if opcode = Opcode.gotoW ∨ opcode = Opcode.jsrW then 5 else 3
  | .tableSwitch _ _ _ targets => 1 + switchPadding offset + 12 + 4 * targets.length
  | .lookupSwitch _ pairs => 1 + switchPadding offset + 8 + 8 * pairs.length
  | .field .. => 3
  | .method opcode _ _ => if opcode = Opcode.invokeinterface then 5 else 3
  | .invokeDynamic .. => 5
  | .type .. => 3
  | .newArray _ => 2
  | .multiNewArray .. => 4

/-- The offsets of instructions with their pool indices, from `offset` on and
    after the offsets `done`. -/
def layoutFrom (done : Array Nat) (offset : Nat) :
    List (Instruction × UInt16) → Except Invalid Layout
  | [] => return ⟨done.push offset⟩
  | (i, operand) :: rest =>
    let next := offset + size operand offset i
    if next > maxLength then throw (.codeLength maxLength)
    else layoutFrom (done.push offset) next rest

/-- The offsets of instructions with their pool indices. -/
def layout (instructions : List (Instruction × UInt16)) : Except Invalid Layout :=
  layoutFrom #[] 0 instructions

/-! ## Bytes -/

variable (layout : Layout)

/-- The distance from `offset` to a label. -/
def distance (offset : Nat) (label : Label) : Int :=
  (layout.offsets[label]?.getD 0 : Int) - offset

/-- A branch distance of four bytes. -/
def distance4 (offset : Nat) (label : Label) : Bytes :=
  u4 (Int32.ofInt (distance layout offset label)).toUInt32

/-- The bytes of a load, a store or `ret`, in the shortest form. -/
def emitVar (opcode : UInt8) (index : UInt16) : Except Invalid Bytes :=
  if !Opcode.isVariable opcode then throw (.notVariable opcode)
  else if opcode ≠ Opcode.ret ∧ index ≤ 3 then
    let short :=
      if opcode < Opcode.istore then Opcode.iload0 + (opcode - Opcode.iload) * 4
      else Opcode.istore0 + (opcode - Opcode.istore) * 4
    return [short + index.toUInt8]
  else if index ≤ 0xFF then return [opcode, index.toUInt8]
  else return Opcode.wide :: opcode :: u2 index

/-- The bytes of a jump. -/
def emitJump (offset : Nat) (opcode : UInt8) (target : Label) : Except Invalid Bytes :=
  if Opcode.isWideJump opcode then return opcode :: distance4 layout offset target
  else if Opcode.isJump opcode then
    let d := distance layout offset target
    if -0x8000 ≤ d ∧ d < 0x8000 then return opcode :: u2 (Int16.ofInt d).toUInt16
    else throw (.branchDistance d)
  else throw (.notJump opcode)

/-- The bytes of a `tableswitch`. -/
def emitTableSwitch (offset : Nat) (default : Label) (low high : Int32)
    (targets : List Label) : Except Invalid Bytes :=
  if high.toInt - low.toInt + 1 ≠ targets.length ∨ high < low then
    throw (.switchTargets low high targets.length)
  else
    return Opcode.tableswitch :: List.replicate (switchPadding offset) 0 ++
      distance4 layout offset default ++ u4 low.toUInt32 ++ u4 high.toUInt32 ++
      targets.flatMap (distance4 layout offset)

/-- Pairs in ascending order of their keys. -/
def sortPairs (pairs : List (Int32 × Label)) : List (Int32 × Label) :=
  pairs.mergeSort fun a b => a.1 ≤ b.1

/-- Whether two neighbours have the same key. -/
def hasEqualNeighbours : List (Int32 × Label) → Bool
  | a :: b :: rest => a.1 == b.1 || hasEqualNeighbours (b :: rest)
  | _ => false

/-- The bytes of a `lookupswitch`. -/
def emitLookupSwitch (offset : Nat) (default : Label) (pairs : List (Int32 × Label)) :
    Except Invalid Bytes :=
  let sorted := sortPairs pairs
  if hasEqualNeighbours sorted then throw .duplicateKeys
  else
    return Opcode.lookupswitch :: List.replicate (switchPadding offset) 0 ++
      distance4 layout offset default ++ u4 (UInt32.ofNat sorted.length) ++
      sorted.flatMap fun (key, label) => u4 key.toUInt32 ++ distance4 layout offset label

/-- The bytes of the call of a method. -/
def emitMethod (operand : UInt16) (opcode : UInt8) (member : Member) : Except Invalid Bytes :=
  if opcode = Opcode.invokeinterface then
    match MethodType.ofDescriptor member.descriptor with
    | .error cause => throw (.badDescriptor cause)
    | .ok type =>
      if 1 + type.parameterSlots > 0xFF then throw (.argumentSlots type.parameterSlots)
      else return opcode :: u2 operand ++ [UInt8.ofNat (1 + type.parameterSlots), 0]
  else if Opcode.isCall opcode then return opcode :: u2 operand
  else throw (.notInvocation opcode)

/-- The bytes of an instruction with the pool index `operand` at `offset`. -/
def emit (operand : UInt16) (offset : Nat) : Instruction → Except Invalid Bytes
  | .simple opcode =>
    if Opcode.isPlain opcode then return [opcode] else throw (.takesOperands opcode)
  | .push opcode value =>
    if opcode = Opcode.bipush then
      if fitsByte value then return [opcode, value.toInt8.toUInt8] else throw (.bytePush value)
    else if opcode = Opcode.sipush then return opcode :: u2 value.toUInt16
    else throw (.notPush opcode)
  | .ldc constant =>
    if constant.isWide then return Opcode.ldc2W :: u2 operand
    else if operand ≤ 0xFF then return [Opcode.ldc, operand.toUInt8]
    else return Opcode.ldcW :: u2 operand
  | .var opcode index => emitVar opcode index
  | .iinc index increment =>
    if index ≤ 0xFF ∧ fitsByte increment then
      return [Opcode.iinc, index.toUInt8, increment.toInt8.toUInt8]
    else return Opcode.wide :: Opcode.iinc :: u2 index ++ u2 increment.toUInt16
  | .jump opcode target => emitJump layout offset opcode target
  | .tableSwitch default low high targets => emitTableSwitch layout offset default low high targets
  | .lookupSwitch default pairs => emitLookupSwitch layout offset default pairs
  | .field opcode _ =>
    if Opcode.isAccess opcode then return opcode :: u2 operand
    else throw (.notField opcode)
  | .method opcode member _ => emitMethod operand opcode member
  | .invokeDynamic .. => return Opcode.invokedynamic :: u2 operand ++ [0, 0]
  | .type opcode _ =>
    if Opcode.isOfType opcode then return opcode :: u2 operand
    else throw (.notClass opcode)
  | .newArray atype =>
    if Opcode.isArrayType atype then return [Opcode.newarray, atype] else throw (.arrayType atype)
  | .multiNewArray _ dimensions =>
    if dimensions = 0 then throw .noDimensions
    else return Opcode.multianewarray :: u2 operand ++ [dimensions]

/-- The bytes of the instructions from the label `index` on, after the bytes
    `done` of the instructions before, last first. -/
def emitFrom (done : List Bytes) (index : Nat) :
    List (Instruction × UInt16) → Except Invalid Bytes
  | [] => return done.reverse.flatten
  | (i, operand) :: rest =>
    match emit layout operand (layout.offsets[index]?.getD 0) i with
    | .error cause => throw (.atInstruction index cause)
    | .ok bytes => emitFrom (bytes :: done) (index + 1) rest

/-- Write a list of instructions. -/
def encode (instructions : List Instruction) : Linking (Bytes × Layout) := do
  let operands ← Linking.each operand instructions
  let placed := instructions.zip operands
  let layout ← Bytecode.layout placed
  let bytes ← emitFrom layout [] 0 placed
  return (bytes, layout)

end JvmClass.Bytecode
