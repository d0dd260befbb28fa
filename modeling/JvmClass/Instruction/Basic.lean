/-
  Instructions with every reference into the constant pool resolved.

  * a `Label` is the index of an instruction in its list; the length of the
    list is the label of the end of the code;
  * `Instruction.targets` are the branch targets of an instruction and
    `Instruction.mapTargetsM` replaces them, both in one order: the default of
    a switch comes first.
-/
import JvmClass.Constant
import JvmClass.Instruction.Opcode

namespace JvmClass

/-- The index of an instruction in its method body. -/
abbrev Label := Nat

/-- An instruction of a method body. -/
inductive Instruction where
  /-- An instruction without operands. -/
  | simple (opcode : UInt8)
  /-- A `bipush` or a `sipush`. -/
  | push (opcode : UInt8) (value : Int16)
  /-- Any form of `ldc`. -/
  | ldc (constant : Constant)
  /-- A load, a store or `ret`, in any of its forms. -/
  | var (opcode : UInt8) (index : UInt16)
  | iinc (index : UInt16) (increment : Int16)
  /-- A conditional branch, `goto` or `jsr`. -/
  | jump (opcode : UInt8) (target : Label)
  | tableSwitch (default : Label) (low high : Int32) (targets : List Label)
  | lookupSwitch (default : Label) (pairs : List (Int32 × Label))
  | field (opcode : UInt8) (member : Member)
  | method (opcode : UInt8) (member : Member) (interface : Bool)
  | invokeDynamic (name descriptor : String) (bootstrap : BootstrapMethod)
  /-- One of `new`, `anewarray`, `checkcast` and `instanceof`. -/
  | type (opcode : UInt8) (className : String)
  | newArray (atype : UInt8)
  | multiNewArray (className : String) (dimensions : UInt8)

namespace Instruction

/-- The operation code; for a constant that of the shortest form. -/
def opcode : Instruction → UInt8
  | simple opcode | push opcode _ | var opcode _ | jump opcode _ | field opcode _
  | method opcode _ _ | type opcode _ => opcode
  | ldc constant => if constant.isWide then Opcode.ldc2W else Opcode.ldc
  | iinc .. => Opcode.iinc
  | tableSwitch .. => Opcode.tableswitch
  | lookupSwitch .. => Opcode.lookupswitch
  | invokeDynamic .. => Opcode.invokedynamic
  | newArray _ => Opcode.newarray
  | multiNewArray .. => Opcode.multianewarray

/-- The branch targets, the default of a switch first. -/
def targets : Instruction → List Label
  | jump _ target => [target]
  | tableSwitch default _ _ targets => default :: targets
  | lookupSwitch default pairs => default :: pairs.map (·.2)
  | _ => []

/-- Replace every branch target, in the order of `targets`. -/
def mapTargetsM {m : Type → Type} [Monad m] (f : Label → m Label) : Instruction → m Instruction
  | jump opcode target => return jump opcode (← f target)
  | tableSwitch default low high targets =>
    return tableSwitch (← f default) low high (← targets.mapM f)
  | lookupSwitch default pairs =>
    return lookupSwitch (← f default)
      (← pairs.mapM fun (key, target) => return (key, ← f target))
  | instruction => return instruction

/-- Whether control never goes on to the next instruction. -/
def endsBlock (instruction : Instruction) : Bool := Opcode.endsBlock instruction.opcode

end Instruction

end JvmClass
