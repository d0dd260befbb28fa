/-
  Operation codes of instructions.

  * the codes that the program treats by themselves have names here, and
    `Opcode.mnemonic?` is the mnemonic of every assigned code;
  * `Opcode.form?` says which operands follow a code in bytecode that is read;
    `Opcode.isPlain` and its relatives are the codes that are written for each
    kind of instructions;
  * `Opcode.endsBlock` tells the codes after which control never goes on to
    the next instruction.
-/

namespace JvmClass.Opcode

abbrev nop : UInt8 := 0x00
abbrev aconstNull : UInt8 := 0x01
abbrev bipush : UInt8 := 0x10
abbrev sipush : UInt8 := 0x11
abbrev ldc : UInt8 := 0x12
abbrev ldcW : UInt8 := 0x13
abbrev ldc2W : UInt8 := 0x14
abbrev iload : UInt8 := 0x15
abbrev lload : UInt8 := 0x16
abbrev fload : UInt8 := 0x17
abbrev dload : UInt8 := 0x18
abbrev aload : UInt8 := 0x19
abbrev iload0 : UInt8 := 0x1a
abbrev istore : UInt8 := 0x36
abbrev lstore : UInt8 := 0x37
abbrev fstore : UInt8 := 0x38
abbrev dstore : UInt8 := 0x39
abbrev astore : UInt8 := 0x3a
abbrev istore0 : UInt8 := 0x3b
abbrev iinc : UInt8 := 0x84
abbrev goto : UInt8 := 0xa7
abbrev jsr : UInt8 := 0xa8
abbrev ret : UInt8 := 0xa9
abbrev tableswitch : UInt8 := 0xaa
abbrev lookupswitch : UInt8 := 0xab
abbrev ireturn : UInt8 := 0xac
abbrev returnVoid : UInt8 := 0xb1
abbrev getstatic : UInt8 := 0xb2
abbrev putstatic : UInt8 := 0xb3
abbrev getfield : UInt8 := 0xb4
abbrev putfield : UInt8 := 0xb5
abbrev invokevirtual : UInt8 := 0xb6
abbrev invokespecial : UInt8 := 0xb7
abbrev invokestatic : UInt8 := 0xb8
abbrev invokeinterface : UInt8 := 0xb9
abbrev invokedynamic : UInt8 := 0xba
abbrev new : UInt8 := 0xbb
abbrev newarray : UInt8 := 0xbc
abbrev anewarray : UInt8 := 0xbd
abbrev athrow : UInt8 := 0xbf
abbrev checkcast : UInt8 := 0xc0
abbrev instanceof : UInt8 := 0xc1
abbrev wide : UInt8 := 0xc4
abbrev multianewarray : UInt8 := 0xc5
abbrev ifnull : UInt8 := 0xc6
abbrev ifnonnull : UInt8 := 0xc7
abbrev gotoW : UInt8 := 0xc8
abbrev jsrW : UInt8 := 0xc9

/-- The mnemonics, by code. -/
def mnemonics : Array String := #[
  "nop", "aconst_null", "iconst_m1", "iconst_0", "iconst_1", "iconst_2", "iconst_3", "iconst_4",
  "iconst_5", "lconst_0", "lconst_1", "fconst_0", "fconst_1", "fconst_2", "dconst_0", "dconst_1",
  "bipush", "sipush", "ldc", "ldc_w", "ldc2_w", "iload", "lload", "fload", "dload", "aload",
  "iload_0", "iload_1", "iload_2", "iload_3", "lload_0", "lload_1", "lload_2", "lload_3",
  "fload_0", "fload_1", "fload_2", "fload_3", "dload_0", "dload_1", "dload_2", "dload_3",
  "aload_0", "aload_1", "aload_2", "aload_3", "iaload", "laload", "faload", "daload", "aaload",
  "baload", "caload", "saload", "istore", "lstore", "fstore", "dstore", "astore", "istore_0",
  "istore_1", "istore_2", "istore_3", "lstore_0", "lstore_1", "lstore_2", "lstore_3", "fstore_0",
  "fstore_1", "fstore_2", "fstore_3", "dstore_0", "dstore_1", "dstore_2", "dstore_3", "astore_0",
  "astore_1", "astore_2", "astore_3", "iastore", "lastore", "fastore", "dastore", "aastore",
  "bastore", "castore", "sastore", "pop", "pop2", "dup", "dup_x1", "dup_x2", "dup2", "dup2_x1",
  "dup2_x2", "swap", "iadd", "ladd", "fadd", "dadd", "isub", "lsub", "fsub", "dsub", "imul",
  "lmul", "fmul", "dmul", "idiv", "ldiv", "fdiv", "ddiv", "irem", "lrem", "frem", "drem", "ineg",
  "lneg", "fneg", "dneg", "ishl", "lshl", "ishr", "lshr", "iushr", "lushr", "iand", "land",
  "ior", "lor", "ixor", "lxor", "iinc", "i2l", "i2f", "i2d", "l2i", "l2f", "l2d", "f2i", "f2l",
  "f2d", "d2i", "d2l", "d2f", "i2b", "i2c", "i2s", "lcmp", "fcmpl", "fcmpg", "dcmpl", "dcmpg",
  "ifeq", "ifne", "iflt", "ifge", "ifgt", "ifle", "if_icmpeq", "if_icmpne", "if_icmplt",
  "if_icmpge", "if_icmpgt", "if_icmple", "if_acmpeq", "if_acmpne", "goto", "jsr", "ret",
  "tableswitch", "lookupswitch", "ireturn", "lreturn", "freturn", "dreturn", "areturn", "return",
  "getstatic", "putstatic", "getfield", "putfield", "invokevirtual", "invokespecial",
  "invokestatic", "invokeinterface", "invokedynamic", "new", "newarray", "anewarray",
  "arraylength", "athrow", "checkcast", "instanceof", "monitorenter", "monitorexit", "wide",
  "multianewarray", "ifnull", "ifnonnull", "goto_w", "jsr_w"]

/-- The mnemonic of a code, if it is assigned. -/
def mnemonic? (opcode : UInt8) : Option String := mnemonics[opcode.toNat]?

/-- The mnemonic of a code, `?` if it is not assigned. -/
def mnemonic (opcode : UInt8) : String := (mnemonic? opcode).getD "?"

/-! ## Operands -/

/-- What follows an operation code in the bytecode. -/
inductive Form where
  /-- nothing -/
  | plain
  /-- a value to push, of one byte or of two -/
  | bytePush | shortPush
  /-- the index of a constant, of one byte or of two; or of a wide constant -/
  | constant | constantW | constant2W
  /-- a local variable -/
  | localVar
  /-- nothing: the local variable is part of the code -/
  | localLoad | localStore
  /-- a local variable and an increment -/
  | increment
  /-- a branch offset of two bytes or of four -/
  | jump | jumpW
  | tableSwitch | lookupSwitch
  /-- the index of a member -/
  | field | method
  /-- the index of a call site -/
  | callSite
  /-- the index of a class -/
  | type
  /-- a primitive type -/
  | newArray
  /-- the index of a class and a number of dimensions -/
  | multiNewArray
  /-- another code, whose operands are twice as long -/
  | wide
  deriving DecidableEq, Repr

/-- What follows `opcode` in the bytecode, if the code is assigned. -/
def form? (opcode : UInt8) : Option Form :=
  if opcode ≤ 0x0f then some .plain
  else if opcode = 0x10 then some .bytePush
  else if opcode = 0x11 then some .shortPush
  else if opcode = 0x12 then some .constant
  else if opcode = 0x13 then some .constantW
  else if opcode = 0x14 then some .constant2W
  else if opcode ≤ 0x19 then some .localVar
  else if opcode ≤ 0x2d then some .localLoad
  else if opcode ≤ 0x35 then some .plain
  else if opcode ≤ 0x3a then some .localVar
  else if opcode ≤ 0x4e then some .localStore
  else if opcode ≤ 0x83 then some .plain
  else if opcode = 0x84 then some .increment
  else if opcode ≤ 0x98 then some .plain
  else if opcode ≤ 0xa8 then some .jump
  else if opcode = 0xa9 then some .localVar
  else if opcode = 0xaa then some .tableSwitch
  else if opcode = 0xab then some .lookupSwitch
  else if opcode ≤ 0xb1 then some .plain
  else if opcode ≤ 0xb5 then some .field
  else if opcode ≤ 0xb9 then some .method
  else if opcode = 0xba then some .callSite
  else if opcode = 0xbb then some .type
  else if opcode = 0xbc then some .newArray
  else if opcode = 0xbd then some .type
  else if opcode ≤ 0xbf then some .plain
  else if opcode ≤ 0xc1 then some .type
  else if opcode ≤ 0xc3 then some .plain
  else if opcode = 0xc4 then some .wide
  else if opcode = 0xc5 then some .multiNewArray
  else if opcode ≤ 0xc7 then some .jump
  else if opcode ≤ 0xc9 then some .jumpW
  else none

/-! ## Kinds of instructions -/

/-- Whether an instruction is written as its code alone. -/
def isPlain (opcode : UInt8) : Bool :=
  opcode ≤ 0x0f || (0x2e ≤ opcode && opcode ≤ 0x35) || (0x4f ≤ opcode && opcode ≤ 0x83) ||
    (0x85 ≤ opcode && opcode ≤ 0x98) || (ireturn ≤ opcode && opcode ≤ returnVoid) ||
    opcode == 0xbe || opcode == athrow || opcode == 0xc2 || opcode == 0xc3

/-- Whether `opcode` stands for a load or a store of a local variable, or for
    `ret`. -/
def isVariable (opcode : UInt8) : Bool :=
  (iload ≤ opcode && opcode ≤ aload) || (istore ≤ opcode && opcode ≤ astore) || opcode == ret

/-- Whether `opcode` stands for a jump over a distance of two bytes. -/
def isJump (opcode : UInt8) : Bool :=
  (0x99 ≤ opcode && opcode ≤ jsr) || opcode == ifnull || opcode == ifnonnull

/-- Whether `opcode` stands for a jump over a distance of four bytes. -/
def isWideJump (opcode : UInt8) : Bool := opcode == gotoW || opcode == jsrW

/-- Whether `opcode` stands for an access to a field. -/
def isAccess (opcode : UInt8) : Bool := getstatic ≤ opcode && opcode ≤ putfield

/-- Whether `opcode` stands for a call of a method, other than
    `invokeinterface`. -/
def isCall (opcode : UInt8) : Bool := invokevirtual ≤ opcode && opcode ≤ invokestatic

/-- Whether `opcode` stands for an instruction on a class. -/
def isOfType (opcode : UInt8) : Bool :=
  opcode == new || opcode == anewarray || opcode == checkcast || opcode == instanceof

/-- Whether control never goes on to the next instruction after `opcode`. -/
def endsBlock (opcode : UInt8) : Bool :=
  opcode == goto || opcode == gotoW || opcode == tableswitch || opcode == lookupswitch ||
    (ireturn ≤ opcode && opcode ≤ returnVoid) || opcode == athrow || opcode == ret

/-- Whether `atype` is an element type of `newarray`. -/
def isArrayType (atype : UInt8) : Bool := 4 ≤ atype && atype ≤ 11

end JvmClass.Opcode
