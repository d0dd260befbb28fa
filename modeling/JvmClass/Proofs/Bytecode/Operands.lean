/-
  The operands of an instruction, by the form of its operation code.

  * `operands` reads what follows an operation code, and `instruction_eq` says
    that an instruction is read as its code and then its operands;
  * `isPlain_iff_form` and its relatives: the codes that are written for a kind of
    instructions are those that are read as it, and `switchGap_eq`: as many bytes
    are moved over in a switch as are filled up;
  * `localVar_short` says what the short forms of loads and stores stand
    for.
-/
import JvmClass.Bytecode.Writing
import JvmClass.Proofs.Bytes.Reads
import Mathlib.Data.FinEnum
import Mathlib.Data.Fintype.Basic

namespace JvmClass

namespace Bytecode

open Reader

/-- Read what follows the code `opcode` of an instruction at `offset`. -/
def operands (linkage : Linkage) (opcode : UInt8) (offset : Nat) :
    Opcode.Form → Reader Instruction
  | .plain => return .simple opcode
  | .bytePush => return .push opcode (← i1).toInt16
  | .shortPush => return .push opcode (← i2)
  | .constant => constantOperand linkage opcode .constant offset
  | .constantW => constantOperand linkage opcode .constantW offset
  | .constant2W => constantOperand linkage opcode .constant2W offset
  | .localVar => return .var opcode (← u1).toUInt16
  | .localLoad =>
    let k := opcode - Opcode.iload0
    return .var (Opcode.iload + k / 4) (k % 4).toUInt16
  | .localStore =>
    let k := opcode - Opcode.istore0
    return .var (Opcode.istore + k / 4) (k % 4).toUInt16
  | .increment => return .iinc (← u1).toUInt16 (← i1).toInt16
  | .jump => return .jump opcode (← branchTarget offset (← i2).toInt32)
  | .jumpW => return .jump opcode (← wideBranch offset)
  | .tableSwitch => tableSwitchOperands offset
  | .lookupSwitch => lookupSwitchOperands offset
  | .field => fieldOperand linkage opcode offset
  | .method => methodOperand linkage opcode offset
  | .callSite => callSiteOperand linkage offset
  | .type => return .type opcode (← linkage.pool.className (← u2))
  | .newArray => do
    let atype ← u1
    unless Opcode.isArrayType atype do throw (.arrayType offset atype)
    return .newArray atype
  | .multiNewArray => do
    let className ← linkage.pool.className (← u2)
    let dimensions ← u1
    if dimensions = 0 then throw (.noDimensions offset)
    return .multiNewArray className dimensions
  | .wide => wideOperands offset

theorem instruction_eq (linkage : Linkage) :
    instruction linkage = (do
      let offset ← position
      let opcode ← u1
      match Opcode.form? opcode with
      | none => throw (.unknownOpcode opcode offset)
      | some form => operands linkage opcode offset form) := by
  unfold instruction
  congr 1; funext offset; congr 1; funext opcode
  cases Opcode.form? opcode with
  | none => rfl
  | some form => cases form <;> rfl

theorem readsAt_instruction {linkage : Linkage} {before after w : Bytes} {opcode : UInt8}
    {i : Instruction} (form : Opcode.Form) (hform : Opcode.form? opcode = some form)
    (h : ReadsAt (before ++ [opcode]) after (operands linkage opcode before.length form) w i) :
    ReadsAt before after (instruction linkage) (opcode :: w) i := by
  rw [instruction_eq]
  refine (reads_position before _).bindNil ?_
  refine (reads_u1 opcode before (w ++ after)).bind ?_
  rw [hform]
  exact h

/-! ## The codes of a form -/

/-- A load, a store or `ret` is `wide` or not by the same code, and has short
    forms for the first four variables unless it is `ret`. -/
theorem localVar_short : ∀ opcode : UInt8, Opcode.form? opcode = some .localVar →
    opcode ≠ Opcode.ret → ∀ k : UInt8, k ≤ 3 →
      (opcode < Opcode.istore →
        Opcode.form? (Opcode.iload0 + (opcode - Opcode.iload) * 4 + k) = some .localLoad ∧
        Opcode.iload + (Opcode.iload0 + (opcode - Opcode.iload) * 4 + k - Opcode.iload0) / 4 =
          opcode ∧
        (Opcode.iload0 + (opcode - Opcode.iload) * 4 + k - Opcode.iload0) % 4 = k) ∧
      (¬ opcode < Opcode.istore →
        Opcode.form? (Opcode.istore0 + (opcode - Opcode.istore) * 4 + k) = some .localStore ∧
        Opcode.istore + (Opcode.istore0 + (opcode - Opcode.istore) * 4 + k - Opcode.istore0) / 4 =
          opcode ∧
        (Opcode.istore0 + (opcode - Opcode.istore) * 4 + k - Opcode.istore0) % 4 = k) := by
  decide +kernel

/-! ## What is written is what is read -/

theorem switchGap_eq (offset : Nat) : switchGap offset = switchPadding offset := by
  unfold switchGap switchPadding
  omega

end Bytecode

namespace Opcode

theorem isPlain_iff_form : ∀ opcode, isPlain opcode = true ↔ form? opcode = some .plain := by
  decide +kernel

theorem isVariable_iff_form : ∀ opcode, isVariable opcode = true ↔ form? opcode = some .localVar := by
  decide +kernel

theorem isJump_iff_form : ∀ opcode, isJump opcode = true ↔ form? opcode = some .jump := by
  decide +kernel

theorem isWideJump_iff_form : ∀ opcode, isWideJump opcode = true ↔ form? opcode = some .jumpW := by
  decide +kernel

theorem isAccess_iff_form : ∀ opcode, isAccess opcode = true ↔ form? opcode = some .field := by
  decide +kernel

theorem isCall_iff_form : ∀ opcode,
    opcode = invokeinterface ∨ isCall opcode = true ↔ form? opcode = some .method := by
  decide +kernel

theorem isOfType_iff_form : ∀ opcode, isOfType opcode = true ↔ form? opcode = some .type := by
  decide +kernel

end Opcode

end JvmClass
