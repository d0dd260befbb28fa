/-
  Constant pool entries.

  * an `Entry` is what one slot of the pool holds; a `long` or a `double` takes
    the slot after it as well, which is `reserved`;
  * `Entry.read` reads an entry, `Entry.write` writes one.
-/
import JvmClass.Bytes.Cursor
import JvmClass.Invalid
import JvmClass.Text.ModifiedUtf8

namespace JvmClass.Pool

/-- The index of a constant pool entry. -/
abbrev Index := UInt16

/-- What a constant pool slot holds.  Floating-point numbers are kept as their
    bits. -/
inductive Entry where
  | reserved
  | utf8 (text : String)
  | integer (value : Int32)
  | float (bits : UInt32)
  | long (value : Int64)
  | double (bits : UInt64)
  | classRef (name : Index)
  | string (text : Index)
  | fieldRef (owner nameAndType : Index)
  | methodRef (owner nameAndType : Index)
  | interfaceMethodRef (owner nameAndType : Index)
  | nameAndType (name descriptor : Index)
  | methodHandle (kind : UInt8) (member : Index)
  | methodType (descriptor : Index)
  | dynamic (bootstrap : UInt16) (nameAndType : Index)
  | invokeDynamic (bootstrap : UInt16) (nameAndType : Index)
  | module (name : Index)
  | package (name : Index)
  deriving DecidableEq, Hashable, Repr

namespace Entry

/-- The kind of an entry. -/
def kind : Entry → Kind
  | reserved => .reserved
  | utf8 _ => .utf8
  | integer _ => .integer
  | float _ => .float
  | long _ => .long
  | double _ => .double
  | classRef _ => .classRef
  | string _ => .string
  | fieldRef .. => .fieldRef
  | methodRef .. => .methodRef
  | interfaceMethodRef .. => .interfaceMethodRef
  | nameAndType .. => .nameAndType
  | methodHandle .. => .methodHandle
  | methodType _ => .methodType
  | dynamic .. => .dynamic
  | invokeDynamic .. => .invokeDynamic
  | module _ => .module
  | package _ => .package

/-- Whether an entry takes the slot after it as well. -/
def isWide : Entry → Bool
  | long _ | double _ => true
  | _ => false

/-- The slots that an entry fills. -/
def slots (entry : Entry) : List Entry := if entry.isWide then [entry, reserved] else [entry]

/-! ## In a class file -/

open Reader in
/-- Read an entry: its tag, then its operands. -/
def read : Reader Entry := do
  let offset ← position
  let tag ← u1
  match tag with
  | 1 => return utf8 (ModifiedUtf8.decode (← take (← u2).toNat))
  | 3 => return integer (← i4)
  | 4 => return float (← u4)
  | 5 => return long (← i8)
  | 6 => return double (← u8)
  | 7 => return classRef (← u2)
  | 8 => return string (← u2)
  | 9 => return fieldRef (← u2) (← u2)
  | 10 => return methodRef (← u2) (← u2)
  | 11 => return interfaceMethodRef (← u2) (← u2)
  | 12 => return nameAndType (← u2) (← u2)
  | 15 => return methodHandle (← u1) (← u2)
  | 16 => return methodType (← u2)
  | 17 => return dynamic (← u2) (← u2)
  | 18 => return invokeDynamic (← u2) (← u2)
  | 19 => return module (← u2)
  | 20 => return package (← u2)
  | _ => throw (.poolTag tag offset)

open Bytes in
/-- Write an entry: its tag, then its operands.  A reserved slot takes no
    bytes. -/
def write : Entry → Except Invalid Bytes
  | reserved => return []
  | utf8 text => do
    let bytes := ModifiedUtf8.encode text
    if bytes.length > 0xFFFF then throw (.utf8Length bytes.length)
    return 1 :: u2 (UInt16.ofNat bytes.length) ++ bytes
  | integer value => return 3 :: u4 value.toUInt32
  | float bits => return 4 :: u4 bits
  | long value => return 5 :: u8 value.toUInt64
  | double bits => return 6 :: u8 bits
  | classRef name => return 7 :: u2 name
  | string text => return 8 :: u2 text
  | fieldRef owner nt => return 9 :: u2 owner ++ u2 nt
  | methodRef owner nt => return 10 :: u2 owner ++ u2 nt
  | interfaceMethodRef owner nt => return 11 :: u2 owner ++ u2 nt
  | nameAndType name descriptor => return 12 :: u2 name ++ u2 descriptor
  | methodHandle kind member => return 15 :: u1 kind ++ u2 member
  | methodType descriptor => return 16 :: u2 descriptor
  | dynamic bootstrap nt => return 17 :: u2 bootstrap ++ u2 nt
  | invokeDynamic bootstrap nt => return 18 :: u2 bootstrap ++ u2 nt
  | module name => return 19 :: u2 name
  | package name => return 20 :: u2 name

end Entry

end JvmClass.Pool
