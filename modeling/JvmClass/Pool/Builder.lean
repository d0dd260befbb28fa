/-
  Building a constant pool.

  * a `Builder` holds the slots filled so far; `Interning α` is a step that
    may add entries, and one that fails keeps what it had added;
  * `add` is the index of an entry, which is added only if it is not there
    yet, so that indices follow the order in which entries are first asked
    for;
  * the other steps add an entry after the entries that it refers to;
  * `Builder.write` writes the number of slots and the entries.
-/
import Std.Data.HashMap
import JvmClass.Constant
import JvmClass.Pool.Entry

namespace JvmClass.Pool

/-- A constant pool under construction: its slots, and where each entry is. -/
structure Builder where
  entries : Array Entry
  indices : Std.HashMap Entry Index

/-- A step that may add entries to a pool. -/
abbrev Interning := EStateM Invalid Builder

namespace Builder

/-- The pool with the reserved slot 0 alone. -/
def empty : Builder := ⟨#[.reserved], ∅⟩

/-- The number of slots filled. -/
def size (builder : Builder) : Nat := builder.entries.size

/-- Whether only slot 0 is filled. -/
def isEmpty (builder : Builder) : Bool := builder.size == 1

/-- The most slots a pool may have. -/
def maxSlots : Nat := 0xFFFF

/-- The pool with `entry` in the next slots. -/
def push (builder : Builder) (entry : Entry) : Builder :=
  let index := UInt16.ofNat builder.size
  match builder with
  | ⟨entries, indices⟩ => ⟨entries ++ entry.slots, indices.insert entry index⟩

/-- Write the number of slots and the entries. -/
def write (builder : Builder) : Except Invalid Bytes := do
  let entries ← builder.entries.toList.mapM Entry.write
  return Bytes.u2 (UInt16.ofNat builder.size) ++ entries.flatten

end Builder

/-- The index of `entry`. -/
def add (entry : Entry) : Interning Index := fun builder =>
  match builder.indices[entry]? with
  | some index => .ok index builder
  | none =>
    if builder.size + entry.slots.length > Builder.maxSlots then .error .poolFull builder
    else .ok (UInt16.ofNat builder.size) (builder.push entry)

/-! ## Entries with their references -/

namespace Intern

def utf8 (text : String) : Interning Index := add (.utf8 text)

def classRef (name : String) : Interning Index := do add (.classRef (← utf8 name))

def string (text : String) : Interning Index := do add (.string (← utf8 text))

def methodType (descriptor : String) : Interning Index := do
  add (.methodType (← utf8 descriptor))

def nameAndType (name descriptor : String) : Interning Index := do
  add (.nameAndType (← utf8 name) (← utf8 descriptor))

def fieldRef (member : Member) : Interning Index := do
  add (.fieldRef (← classRef member.owner) (← nameAndType member.name member.descriptor))

def methodRef (member : Member) (interface : Bool) : Interning Index := do
  let owner ← classRef member.owner
  let nameAndType ← nameAndType member.name member.descriptor
  add (if interface then .interfaceMethodRef owner nameAndType else .methodRef owner nameAndType)

def dynamic (bootstrap : UInt16) (name descriptor : String) : Interning Index := do
  add (.dynamic bootstrap (← nameAndType name descriptor))

def invokeDynamic (bootstrap : UInt16) (name descriptor : String) : Interning Index := do
  add (.invokeDynamic bootstrap (← nameAndType name descriptor))

/-- The index of the class `name`, 0 for none. -/
def classRef? : Option String → Interning Index
  | some name => classRef name
  | none => return 0

/-- The index of `text`, 0 for none. -/
def utf8? : Option String → Interning Index
  | some text => utf8 text
  | none => return 0

end Intern

end JvmClass.Pool
