/-
  Reading class files.

  * `ClassFile.decode` turns the bytes of a class file into a record;
  * references to bootstrap methods stand before the table that they refer to,
    so `ClassFile.findBootstraps` first walks over everything up to that table,
    by declared lengths alone, and then the class is read from its flags on;
  * `ClassFile.decodeAccess` reads only as far as the flags.
-/
import JvmClass.Body.Reading

namespace JvmClass.ClassFile

open Reader

/-- The number that every class file starts with. -/
def magic : UInt32 := 0xCAFEBABE

/-- The versions of a class file and its constant pool. -/
structure Header where
  minorVersion : UInt16
  majorVersion : UInt16
  pool : Pool

/-- Read the start of a class file. -/
def readHeader : Reader Header := do
  let found ← u4
  unless found = magic do throw (.magic found)
  let minorVersion ← u2
  let majorVersion ← u2
  return ⟨minorVersion, majorVersion, ← Pool.read (← u2)⟩

/-! ## The bootstrap method table -/

/-- Read a row of the bootstrap method table. -/
def readBootstrapRow : Reader BootstrapRow := do
  let handle ← u2
  return ⟨handle, ← times (← u2).toNat u2⟩

/-- Read a bootstrap method table. -/
def readBootstraps : Reader (List BootstrapRow) := do times (← u2).toNat readBootstrapRow

/-- Move over an attribute. -/
def skipAttribute : Reader Unit := do
  skip 2
  skip (← u4).toNat

/-- Move over a field or a method. -/
def skipMember : Reader Unit := do
  skip 6
  let _ ← times (← u2).toNat skipAttribute

/-- Move over everything between the constant pool and the attributes of the
    class. -/
def skipToAttributes : Reader Unit := do
  skip 6
  skip (2 * (← u2).toNat)
  let _ ← times (← u2).toNat skipMember
  let _ ← times (← u2).toNat skipMember

/-- Read the rows in an attribute of the class, if it is a bootstrap method
    table. -/
def readBootstrapAttribute (pool : Pool) : Reader (List BootstrapRow) := do
  let index ← u2
  let length ← u4
  let content ← take length.toNat
  if (← pool.utf8 index) ≠ AttributeName.bootstrapMethods then return []
  let (rows, rest) ← readBootstraps.runOn content
  unless rest.isEmpty do
    throw (.unreadBytes AttributeName.bootstrapMethods rest.remaining)
  return rows

/-- Walk to the attributes of the class and read the bootstrap methods in
    them. -/
def findBootstraps (pool : Pool) : Reader (Array BootstrapRow) := do
  skipToAttributes
  let tables ← times (← u2).toNat (readBootstrapAttribute pool)
  return tables.flatten.toArray

/-! ## Members -/

variable (linkage : Linkage) (options : DecodeOptions)

/-- Read an attribute of a field. -/
def readFieldAttribute (name : String) (state : Option Constant × Shared) :
    Reader (Option Constant × Shared) :=
  let (value, shared) := state
  match Attribute.readShared? linkage.pool name shared with
  | some reader => do return (value, ← reader)
  | none => do
    if name = AttributeName.constantValue then
      return (some (← linkage.constant (← u2)), shared)
    else return (value, shared.push (.raw (← Attribute.readRaw name)))

/-- Read a field. -/
def readField : Reader FieldRecord := do
  let access ← u2
  let name ← linkage.pool.utf8 (← u2)
  let descriptor ← linkage.pool.utf8 (← u2)
  let (value, shared) ← AttributeTable.read linkage.pool (readFieldAttribute linkage)
    (none, .empty)
  return ⟨⟨access⟩, name, descriptor, value, shared.annotations, shared.attributes⟩

/-- What has been read of a method: its record without its shared parts, and
    these. -/
structure MethodParts where
  method : MethodRecord
  shared : Shared

/-- Read an attribute of a method of the class `owner`. -/
def readMethodAttribute (owner name : String) (parts : MethodParts) : Reader MethodParts :=
  let ⟨method, shared⟩ := parts
  match Attribute.readShared? linkage.pool name shared with
  | some reader => do return ⟨method, ← reader⟩
  | none => do
    if name = AttributeName.code then
      if method.code.isSome then throw (.secondCode method.name method.descriptor)
      let code ← Body.read linkage options owner method
      return ⟨{ method with code := some code }, shared⟩
    else if name = AttributeName.exceptions then
      let exceptions ← Attribute.readClassNames linkage.pool
      return ⟨{ method with exceptions := exceptions }, shared⟩
    else if options.skipDebug ∧ name = AttributeName.methodParameters then
      skipRest
      return parts
    else return ⟨method, shared.push (← Attribute.readMethod linkage.pool name)⟩

/-- Read a method of the class `owner`. -/
def readMethod (owner : String) : Reader MethodRecord := do
  let access ← u2
  let name ← linkage.pool.utf8 (← u2)
  let descriptor ← linkage.pool.utf8 (← u2)
  let method := ⟨⟨access⟩, name, descriptor, [], none, .absent, []⟩
  let parts ← AttributeTable.read linkage.pool (readMethodAttribute linkage options owner)
    ⟨method, .empty⟩
  return { parts.method with
    annotations := parts.shared.annotations
    attributes := parts.shared.attributes }

/-! ## Classes -/

/-- What the attributes of a class say. -/
structure ClassParts where
  sourceFile : Option String
  sourceDebugExtension : Option Bytes
  shared : Shared

/-- Read an attribute of a class.  The bootstrap methods are part of the
    constants and the instructions that refer to them. -/
def readClassAttribute (name : String) (parts : ClassParts) : Reader ClassParts :=
  match Attribute.readShared? linkage.pool name parts.shared with
  | some reader => do return { parts with shared := ← reader }
  | none => do
    if options.skipDebug ∧ (name = AttributeName.sourceFile ∨
        name = AttributeName.sourceDebugExtension) then
      skipRest
      return parts
    else if name = AttributeName.sourceFile then
      return { parts with sourceFile := some (← linkage.pool.utf8 (← u2)) }
    else if name = AttributeName.sourceDebugExtension then
      return { parts with sourceDebugExtension := some (← takeRest) }
    else if name = AttributeName.bootstrapMethods then
      skipRest
      return parts
    else
      let attr ← Attribute.readClass linkage.pool name
      return { parts with shared := parts.shared.push attr }

/-- Read the attributes of a class. -/
def readClassParts : Reader ClassParts :=
  AttributeTable.read linkage.pool (readClassAttribute linkage options) ⟨none, none, .empty⟩

/-- Read everything after the constant pool. -/
def readClass (minorVersion majorVersion : UInt16) : Reader ClassRecord := do
  let access ← u2
  let name ← linkage.pool.className (← u2)
  let superName ← linkage.pool.className? (← u2)
  let interfaces ← Attribute.readClassNames linkage.pool
  let fields ← times (← u2).toNat (readField linkage)
  let methods ← times (← u2).toNat (readMethod linkage options name)
  let parts ← readClassParts linkage options
  return {
    minorVersion, majorVersion, access := ⟨access⟩, name, superName, interfaces, fields, methods
    sourceFile := parts.sourceFile
    sourceDebugExtension := parts.sourceDebugExtension
    annotations := parts.shared.annotations
    attributes := parts.shared.attributes }

/-- Read a class file up to its end. -/
def read (options : DecodeOptions) : Reader ClassRecord := do
  let header ← readHeader
  let start ← position
  let bootstraps ← findBootstraps header.pool
  seek start
  let record ← readClass ⟨header.pool, bootstraps⟩ options header.minorVersion
    header.majorVersion
  let left ← remaining
  unless left = 0 do throw (.trailingBytes left)
  return record

/-- The record of a class file. -/
def decode (bytes : Bytes) (options : DecodeOptions) : Except Malformed ClassRecord :=
  Prod.fst <$> (read options).runOn bytes

/-- The access flags of the class in a class file. -/
def decodeAccess (bytes : Bytes) : Except Malformed Access :=
  Prod.fst <$> (do let _ ← readHeader; return ⟨← u2⟩ : Reader Access).runOn bytes

end JvmClass.ClassFile
