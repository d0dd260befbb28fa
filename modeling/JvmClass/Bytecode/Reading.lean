/-
  Reading bytecode.

  * `Bytecode.instruction` reads one instruction; its branch targets are
    offsets from the start of the code;
  * `Bytecode.instructions` reads all instructions of a method body with the
    offset of each;
  * `Bytecode.decode` turns the targets into labels.
-/
import JvmClass.Bytecode.Labels
import JvmClass.Linkage.Table

namespace JvmClass.Bytecode

open Reader

/-- The offset that a branch at `offset` by `distance` jumps to. -/
def branchTarget (offset : Nat) (distance : Int32) : Except Malformed Nat :=
  let target := (offset : Int) + distance.toInt
  if 0 ≤ target ∧ target ≤ 0xFFFF then return target.toNat
  else throw (.branchTarget offset target)

/-- Read a branch distance of four bytes at the instruction at `offset`. -/
def wideBranch (offset : Nat) : Reader Nat := do branchTarget offset (← i4)

/-- How many bytes to move over after the code of a switch at `offset`: its
    operands start at a multiple of four. -/
def switchGap (offset : Nat) : Nat := (4 - (offset + 1) % 4) % 4

variable (linkage : Linkage)

/-- Read the operands of a `ldc` of any form. -/
def constantOperand (opcode : UInt8) (form : Opcode.Form) (offset : Nat) :
    Reader Instruction := do
  let index ← if form = .constant then UInt8.toUInt16 <$> u1 else u2
  let constant ← linkage.constant index
  if constant.isWide ≠ (form = .constant2W) then
    throw (.constantSize (Opcode.mnemonic opcode) offset index)
  return .ldc constant

/-- Read the operands of a `tableswitch`. -/
def tableSwitchOperands (offset : Nat) : Reader Instruction := do
  skip (switchGap offset)
  let default ← wideBranch offset
  let low ← i4
  let high ← i4
  if low > high then throw (.switchRange offset low high)
  let count := (high.toInt - low.toInt + 1).toNat
  if count * 4 > (← remaining) then throw (.switchTargets offset count)
  return .tableSwitch default low high (← times count (wideBranch offset))

/-- Read the operands of a `lookupswitch`. -/
def lookupSwitchOperands (offset : Nat) : Reader Instruction := do
  skip (switchGap offset)
  let default ← wideBranch offset
  let count ← i4
  if count < 0 ∨ count.toInt.toNat * 8 > (← remaining) then throw (.switchPairs offset count)
  let pairs ← times count.toInt.toNat do
    let key ← i4
    return (key, ← wideBranch offset)
  return .lookupSwitch default pairs

/-- Read the operands of an access to a field. -/
def fieldOperand (opcode : UInt8) (offset : Nat) : Reader Instruction := do
  let ref ← linkage.pool.member (← u2)
  unless ref.field do throw (.notField (Opcode.mnemonic opcode) offset)
  return .field opcode ref.member

/-- Read the operands of a call of a method.  Those of `invokeinterface` end
    in two bytes that follow from the descriptor. -/
def methodOperand (opcode : UInt8) (offset : Nat) : Reader Instruction := do
  let index ← u2
  if opcode = Opcode.invokeinterface then skip 2
  let ref ← linkage.pool.member index
  if ref.field then throw (.unexpectedField (Opcode.mnemonic opcode) offset)
  return .method opcode ref.member ref.interface

/-- Read the operands of `invokedynamic`. -/
def callSiteOperand (offset : Nat) : Reader Instruction := do
  let index ← u2
  skip 2
  match ← linkage.pool.get index with
  | .invokeDynamic bootstrap nameAndType =>
    let (name, descriptor) ← linkage.pool.nameAndType nameAndType
    return .invokeDynamic name descriptor (← linkage.bootstrapMethod bootstrap)
  | _ => throw (.notInvokeDynamic offset)

/-- Read the instruction that `wide` lengthens. -/
def wideOperands (offset : Nat) : Reader Instruction := do
  let opcode ← u1
  match Opcode.form? opcode with
  | some .localVar => return .var opcode (← u2)
  | some .increment => return .iinc (← u2) (← i2)
  | _ => throw (.wideOpcode offset opcode)

/-- Read an instruction, with offsets for its branch targets. -/
def instruction : Reader Instruction := do
  let offset ← position
  let opcode ← u1
  match Opcode.form? opcode with
  | none => throw (.unknownOpcode opcode offset)
  | some .plain => return .simple opcode
  | some .bytePush => return .push opcode (← i1).toInt16
  | some .shortPush => return .push opcode (← i2)
  | some .constant => constantOperand linkage opcode .constant offset
  | some .constantW => constantOperand linkage opcode .constantW offset
  | some .constant2W => constantOperand linkage opcode .constant2W offset
  | some .localVar => return .var opcode (← u1).toUInt16
  | some .localLoad =>
    let k := opcode - Opcode.iload0
    return .var (Opcode.iload + k / 4) (k % 4).toUInt16
  | some .localStore =>
    let k := opcode - Opcode.istore0
    return .var (Opcode.istore + k / 4) (k % 4).toUInt16
  | some .increment => return .iinc (← u1).toUInt16 (← i1).toInt16
  | some .jump => return .jump opcode (← branchTarget offset (← i2).toInt32)
  | some .jumpW => return .jump opcode (← wideBranch offset)
  | some .tableSwitch => tableSwitchOperands offset
  | some .lookupSwitch => lookupSwitchOperands offset
  | some .field => fieldOperand linkage opcode offset
  | some .method => methodOperand linkage opcode offset
  | some .callSite => callSiteOperand linkage offset
  | some .type => return .type opcode (← linkage.pool.className (← u2))
  | some .newArray =>
    let atype ← u1
    unless Opcode.isArrayType atype do throw (.arrayType offset atype)
    return .newArray atype
  | some .multiNewArray =>
    let className ← linkage.pool.className (← u2)
    let dimensions ← u1
    if dimensions = 0 then throw (.noDimensions offset)
    return .multiNewArray className dimensions
  | some .wide => wideOperands offset

/-- Read instructions up to the end, at most `fuel` of them, after the
    instructions `done` with their offsets in reverse. -/
def instructionsRev : (fuel : Nat) → (done : List (Nat × Instruction)) →
    Reader (List (Nat × Instruction))
  | 0, done => return done.reverse
  | fuel + 1, done => do
    if (← remaining) = 0 then return done.reverse
    let offset ← position
    let i ← instruction linkage
    instructionsRev fuel ((offset, i) :: done)

/-- Read all instructions of `code`, each with its offset.  An instruction
    takes at least a byte. -/
def instructions (code : Bytes) : Except Malformed (List (Nat × Instruction)) :=
  Prod.fst <$> (instructionsRev linkage code.length []).runOn code

/-- Read all instructions of `code`, with labels for their targets, and the
    map of the labels. -/
def decode (code : Bytes) : Except Malformed (List Instruction × LabelMap) := do
  let placed ← instructions linkage code
  let labels := LabelMap.ofOffsets (placed.map (·.1)) code.length
  let resolved ← placed.mapM fun (_, i) => i.mapTargetsM labels.instruction
  return (resolved, labels)

end JvmClass.Bytecode
