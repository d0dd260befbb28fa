/-
  Why bytes are not a class file.

  * `Malformed` lists the causes: the input ends too early, the constant pool
    is ill-formed or refers to the wrong kind of entry, a descriptor does not
    parse, or the bytecode, a frame, an annotation or an attribute breaks its
    format;
  * `Malformed.message` is the text of a cause.
-/
import JvmClass.Pool.Kind
import JvmClass.Text.Hex

namespace JvmClass

open Text

/-- A cause for which reading a class file, or a descriptor in it, fails. -/
inductive Malformed where
  /-- Only `left` bytes remain at `offset`, where `wanted` were asked for. -/
  | unexpectedEnd (offset wanted left : Nat)
  -- the class file as a whole
  | magic (found : UInt32)
  | trailingBytes (count : Nat)
  | unreadBytes (name : String) (count : Nat)
  | secondCode (name descriptor : String)
  -- the constant pool
  | emptyPool
  | wideInLastSlot
  | poolTag (tag : UInt8) (offset : Nat)
  | poolIndex (index : UInt16)
  | entryKind (wanted : Pool.Kind) (index : UInt16) (found : Pool.Kind)
  | notMemberRef (index : UInt16) (found : Pool.Kind)
  | notMethodHandle (index : UInt16)
  | notLoadable (index : UInt16) (found : Pool.Kind)
  | handleKind (kind : UInt8)
  | bootstrapDepth (limit : Nat)
  | bootstrapIndex (index : UInt16)
  -- descriptors
  | arrayDimensions
  | endOfDescriptor
  | unterminatedObject (rest : String)
  | emptyClassName (rest : String)
  | unknownType (rest : String)
  | trailingInField (descriptor : String)
  | trailingInMethod (descriptor : String)
  | noParameterList (descriptor : String)
  -- method bodies
  | codeLength (name descriptor : String) (length : Nat)
  | emptyHandlerRange (name descriptor : String)
  | notBoundary (offset : Nat)
  | pastLastInstruction (offset : Nat)
  | branchTarget (offset : Nat) (target : Int)
  | constantSize (mnemonic : String) (offset : Nat) (index : UInt16)
  | switchRange (offset : Nat) (low high : Int32)
  | switchTargets (offset count : Nat)
  | switchPairs (offset : Nat) (count : Int32)
  | notField (mnemonic : String) (offset : Nat)
  | unexpectedField (mnemonic : String) (offset : Nat)
  | notInvokeDynamic (offset : Nat)
  | arrayType (offset : Nat) (atype : UInt8)
  | noDimensions (offset : Nat)
  | wideOpcode (offset : Nat) (opcode : UInt8)
  | unknownOpcode (opcode : UInt8) (offset : Nat)
  -- frames
  | frameType (tag : UInt8)
  | verificationTag (tag : UInt8)
  | chopped (count : UInt8) (locals : Nat)
  -- annotations
  | annotationDepth (limit : Nat)
  | elementTag (tag : UInt8)
  | elementKind (wanted found : Pool.Kind)
  | targetOutsideBody (target : UInt8)
  | targetType (target : UInt8)

namespace Malformed

/-- The text of a cause. -/
def message : Malformed → String
  | unexpectedEnd offset wanted left =>
    s!"unexpected end of data at offset {offset} (wanted {wanted} bytes, {left} left)"
  | magic found => "invalid magic number 0x" ++ hex found.toNat
  | trailingBytes count => s!"{count} trailing bytes after the class attributes"
  | unreadBytes name count => s!"{name} attribute has {count} unread bytes"
  | secondCode name descriptor => s!"method {name}{descriptor} has more than one Code attribute"
  | emptyPool => "constant pool count must be at least 1"
  | wideInLastSlot => "8-byte constant occupies the last constant pool slot"
  | poolTag tag offset => s!"invalid constant pool info tag {tag} at offset {offset}"
  | poolIndex index => s!"invalid constant pool index {index}"
  | entryKind wanted index found =>
    s!"expected {wanted.name} at constant pool index {index}, got {found.name}"
  | notMemberRef index found =>
    s!"expected member reference at constant pool index {index}, got {found.name}"
  | notMethodHandle index => s!"expected MethodHandle at constant pool index {index}"
  | notLoadable index found => s!"constant pool index {index} ({found.name}) is not loadable"
  | handleKind kind => s!"invalid method handle kind {kind}"
  | bootstrapDepth limit => s!"bootstrap method arguments nested more than {limit} deep"
  | bootstrapIndex index => s!"invalid bootstrap method index {index}"
  | arrayDimensions => "array type with more than 255 dimensions in descriptor"
  | endOfDescriptor => "unexpected end of descriptor"
  | unterminatedObject rest => s!"unterminated object type in descriptor {rest}"
  | emptyClassName rest => s!"empty class name in descriptor {rest}"
  | unknownType rest => s!"unknown field type in descriptor {rest}"
  | trailingInField descriptor => s!"trailing characters in field descriptor {descriptor}"
  | trailingInMethod descriptor => s!"trailing characters in method descriptor {descriptor}"
  | noParameterList descriptor => s!"invalid method descriptor {descriptor}: no '('"
  | codeLength name descriptor length => s!"code of {name}{descriptor} is {length} bytes long"
  | emptyHandlerRange name descriptor => s!"empty exception handler range in {name}{descriptor}"
  | notBoundary offset => s!"offset {offset} is not an instruction boundary"
  | pastLastInstruction offset => s!"offset {offset} is past the last instruction"
  | branchTarget offset target => s!"branch at offset {offset} jumps to {target}"
  | constantSize mnemonic offset index =>
    s!"{mnemonic} at offset {offset} loads constant #{index} of the wrong size"
  | switchRange offset low high =>
    s!"tableswitch at offset {offset} has low {low.toInt} above high {high.toInt}"
  | switchTargets offset count => s!"tableswitch at offset {offset} has {count} targets"
  | switchPairs offset count => s!"lookupswitch at offset {offset} has {count.toInt} pairs"
  | notField mnemonic offset => s!"{mnemonic} at offset {offset} does not reference a field"
  | unexpectedField mnemonic offset => s!"{mnemonic} at offset {offset} references a field"
  | notInvokeDynamic offset =>
    s!"invokedynamic at offset {offset} does not reference InvokeDynamic"
  | arrayType offset atype => s!"newarray at offset {offset} has invalid type {atype}"
  | noDimensions offset => s!"multianewarray at offset {offset} has no dimensions"
  | wideOpcode offset opcode => s!"wide at offset {offset} modifies opcode 0x" ++ hex opcode.toNat
  | unknownOpcode opcode offset => "invalid opcode 0x" ++ hex opcode.toNat ++ s!" at offset {offset}"
  | frameType tag => s!"reserved stack map frame type {tag}"
  | verificationTag tag => s!"invalid verification type tag {tag}"
  | chopped count locals => s!"frame chops {count} of {locals} locals"
  | annotationDepth limit => s!"annotation values nested more than {limit} deep"
  | elementTag tag => s!"invalid element value tag {tag}"
  | elementKind wanted found => s!"expected {wanted.name} for element value, got {found.name}"
  | targetOutsideBody target =>
    "type annotation target 0x" ++ hex target.toNat ++ " outside of a method body"
  | targetType target => "invalid type annotation target type 0x" ++ hex target.toNat

end Malformed

end JvmClass
