/-
  Operation codes that fit their instructions.

  * `Opcode.IsPlain`, `Opcode.IsVariable` and their relatives are the operation
    codes of one kind of instructions, each as it is told apart in bytecode;
  * `Instruction.Legal`: the operation code of an instruction is one that its
    kind stands for, and a table switch has a target for each number of its
    range.
-/
import JvmClass.Instruction.Basic
import Mathlib.Data.FinEnum
import Mathlib.Data.Fintype.Basic

namespace JvmClass

/-! ## Operation codes -/

namespace Opcode

/-- A load or a store of a local variable in its long form, or `ret`. -/
def IsVariable (opcode : UInt8) : Prop :=
  iload ≤ opcode ∧ opcode ≤ aload ∨ istore ≤ opcode ∧ opcode ≤ astore ∨ opcode = ret

/-- A conditional branch, `goto` or `jsr`. -/
def IsBranch (opcode : UInt8) : Prop :=
  0x99 ≤ opcode ∧ opcode ≤ jsr ∨ ifnull ≤ opcode ∧ opcode ≤ jsrW

/-- An access to a field. -/
def IsAccess (opcode : UInt8) : Prop := getstatic ≤ opcode ∧ opcode ≤ putfield

/-- A call of a method. -/
def IsCall (opcode : UInt8) : Prop := invokevirtual ≤ opcode ∧ opcode ≤ invokeinterface

/-- An instruction without operands, and not a short form of a load or a
    store. -/
def IsPlain (opcode : UInt8) : Prop :=
  opcode ≤ 0x0f ∨ 0x2e ≤ opcode ∧ opcode ≤ 0x35 ∨ 0x4f ≤ opcode ∧ opcode ≤ 0x83 ∨
    0x85 ≤ opcode ∧ opcode ≤ 0x98 ∨ ireturn ≤ opcode ∧ opcode ≤ returnVoid ∨
    opcode = 0xbe ∨ opcode = athrow ∨ opcode = 0xc2 ∨ opcode = 0xc3

theorem isPlain_iff : ∀ opcode, form? opcode = some .plain ↔ IsPlain opcode := by
  unfold IsPlain
  decide +kernel

theorem isVariable_iff : ∀ opcode, form? opcode = some .localVar ↔ IsVariable opcode := by
  unfold IsVariable
  decide +kernel

theorem isBranch_iff : ∀ opcode,
    form? opcode = some .jump ∨ form? opcode = some .jumpW ↔ IsBranch opcode := by
  unfold IsBranch
  decide +kernel

theorem isAccess_iff : ∀ opcode, form? opcode = some .field ↔ IsAccess opcode := by
  unfold IsAccess
  decide +kernel

theorem isCall_iff : ∀ opcode, form? opcode = some .method ↔ IsCall opcode := by
  unfold IsCall
  decide +kernel

theorem mem_ofType_iff : ∀ opcode,
    form? opcode = some .type ↔ opcode ∈ [new, anewarray, checkcast, instanceof] := by
  decide +kernel

end Opcode

/-- The operation code is one that the kind of instruction stands for, and a
    table switch has exactly one target for each number of its range. -/
def Instruction.Legal : Instruction → Prop
  | simple opcode => Opcode.IsPlain opcode
  | push opcode _ => opcode = Opcode.bipush ∨ opcode = Opcode.sipush
  | var opcode _ => Opcode.IsVariable opcode
  | jump opcode _ => Opcode.IsBranch opcode
  | tableSwitch _ low high targets =>
    (targets.length : Int) = high.toInt - low.toInt + 1 ∧ 1 ≤ targets.length
  | field opcode _ => Opcode.IsAccess opcode
  | method opcode _ _ => Opcode.IsCall opcode
  | type opcode _ => opcode ∈ [Opcode.new, Opcode.anewarray, Opcode.checkcast, Opcode.instanceof]
  | ldc _ | iinc .. | lookupSwitch .. | invokeDynamic .. | newArray _ | multiNewArray .. => True

end JvmClass
