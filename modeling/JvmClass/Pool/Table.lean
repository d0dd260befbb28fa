/-
  The constant pool of a class file, and what its indices stand for.

  * `Pool` is the list of slots, the reserved slot 0 included; `Pool.read`
    reads the slots of a pool of a given size;
  * `get` is the entry at an index; `utf8`, `className`, `nameAndType` and
    `member` follow the references in an entry and fail when one leads to the
    wrong kind of entry.
-/
import JvmClass.Constant
import JvmClass.Pool.Entry

namespace JvmClass

/-- The slots of a constant pool. -/
structure Pool where
  entries : Array Pool.Entry

/-- A member that a pool entry refers to, and through which kind of entry. -/
structure MemberRef where
  member : Member
  /-- Through a `Fieldref`. -/
  field : Bool
  /-- Through an `InterfaceMethodref`. -/
  interface : Bool

namespace Pool

/-- Read entries until `left` more slots are filled. -/
def readSlots : (left : Nat) → (filled : Array Entry) → Reader (Array Entry)
  | 0, filled => return filled
  | 1, filled => do
    let entry ← Entry.read
    if entry.isWide then throw .wideInLastSlot
    return filled.push entry
  | left + 2, filled => do
    let entry ← Entry.read
    if entry.isWide then readSlots left ((filled.push entry).push .reserved)
    else readSlots (left + 1) (filled.push entry)

/-- Read a pool of `count` slots. -/
def read (count : UInt16) : Reader Pool := do
  if count = 0 then throw .emptyPool
  return ⟨← readSlots (count.toNat - 1) #[.reserved]⟩

variable (pool : Pool)

/-- The entry at `index`; a reserved slot holds none. -/
def get (index : Index) : Except Malformed Entry :=
  match pool.entries[index.toNat]? with
  | none | some .reserved => throw (.poolIndex index)
  | some entry => return entry

/-- The text at `index`. -/
def utf8 (index : Index) : Except Malformed String := do
  match ← pool.get index with
  | .utf8 text => return text
  | entry => throw (.entryKind .utf8 index entry.kind)

/-- The text at `index`, none if it is 0. -/
def utf8? (index : Index) : Except Malformed (Option String) :=
  if index = 0 then return none else some <$> pool.utf8 index

/-- The name of the class at `index`. -/
def className (index : Index) : Except Malformed String := do
  match ← pool.get index with
  | .classRef name => pool.utf8 name
  | entry => throw (.entryKind .classRef index entry.kind)

/-- The name of the class at `index`, none if it is 0. -/
def className? (index : Index) : Except Malformed (Option String) :=
  if index = 0 then return none else some <$> pool.className index

/-- The name and the descriptor at `index`. -/
def nameAndType (index : Index) : Except Malformed (String × String) := do
  match ← pool.get index with
  | .nameAndType name descriptor => return (← pool.utf8 name, ← pool.utf8 descriptor)
  | entry => throw (.entryKind .nameAndType index entry.kind)

/-- The member at `index`. -/
def member (index : Index) : Except Malformed MemberRef := do
  match ← pool.get index with
  | .fieldRef owner nameAndType => resolve owner nameAndType true false
  | .methodRef owner nameAndType => resolve owner nameAndType false false
  | .interfaceMethodRef owner nameAndType => resolve owner nameAndType false true
  | entry => throw (.notMemberRef index entry.kind)
where
  resolve (owner nameAndType : Index) (field interface : Bool) : Except Malformed MemberRef := do
    let (name, descriptor) ← pool.nameAndType nameAndType
    let owner ← pool.className owner
    return ⟨⟨owner, name, descriptor⟩, field, interface⟩

end Pool

end JvmClass
