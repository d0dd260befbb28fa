/-
  Extra fields of archive entries.

  * `crc32` is the checksum of a string of bytes: `Crc32.step` shifts one bit out
    of the remainder, `Crc32.feed` brings in a byte;
  * after the name of an entry the directory of an archive may hold extra
    fields, each a kind, a length and a content; `ExtraField.read` reads one;
  * a field may give the name or the comment of the entry in UTF-8, together
    with the checksum of the text that it replaces, or say that the entry is
    locked by a password; all others are checked at most for their form;
  * `Description.addAll` adds to what is known of an entry what its fields say.
    A field that goes on past the end is not read any more, and one that breaks
    its form makes the whole entry unreadable.
-/
import JvmClass.Bytes.LittleEndian

namespace JvmClass.Archive

open Bytes

namespace Crc32

/-- The generator polynomial, its bits reversed. -/
def polynomial : UInt32 := 0xEDB88320

/-- Shift one bit out of the remainder. -/
def step (remainder : UInt32) : UInt32 :=
  if remainder &&& 1 = 1 then remainder >>> 1 ^^^ polynomial else remainder >>> 1

/-- The remainder after one more byte. -/
def feed (remainder : UInt32) (byte : UInt8) : UInt32 :=
  Nat.repeat step 8 (remainder ^^^ byte.toUInt32)

end Crc32

/-- The checksum of a string of bytes. -/
def crc32 (bytes : Bytes) : UInt32 :=
  bytes.foldl Crc32.feed 0xFFFFFFFF ^^^ 0xFFFFFFFF

/-- What an extra field says of its entry. -/
inductive ExtraField where
  /-- The name, in place of one with the given checksum. -/
  | name (checksum : UInt32) (text : Bytes)
  /-- The comment, in place of one with the given checksum. -/
  | comment (checksum : UInt32) (text : Bytes)
  /-- The entry is locked by a password. -/
  | lock
  | other
  deriving DecidableEq, Repr

namespace ExtraField

/-- Why an extra field cannot be read. -/
inductive Fault where
  /-- The bytes end within the field. -/
  | ended
  /-- The field breaks its form. -/
  | malformed
  deriving DecidableEq, Repr

/-- Check that there are `count` bytes of the content. -/
def need (count : Nat) (content : Bytes) : Except Fault Unit :=
  if content.length < count then .error .ended else .ok ()

/-- Check the form of a field. -/
def check (form : Bool) : Except Fault Unit := if form then .ok () else .error .malformed

/-- Read a checksum and a text, after a byte for the version. -/
def readText (length : Nat) (content : Bytes) : Except Fault (UInt32 × Bytes) := do
  need 5 content
  check (5 ≤ length)
  need length content
  return (UInt32.ofNat (word content 1 4), (content.take length).drop 5)

/-- Check the times of a file as one system writes them: of creation, of the
    last change and of the last access. -/
def checkFileTimes (length : Nat) (content : Bytes) : Except Fault Unit := do
  check (length = 32)
  need 6 content
  check (word content 4 2 = 1)
  need 8 content
  check (word content 6 2 = 24)
  need 32 content

/-- Check how an entry is locked: in a known version, by a known maker and with
    a known strength. -/
def checkLock (length : Nat) (content : Bytes) : Except Fault Unit := do
  check (length = 7)
  need 7 content
  check (word content 2 2 = 0x4541)
  check (word content 0 2 = 1 || word content 0 2 = 2)
  check (1 ≤ word content 4 1 && word content 4 1 ≤ 3)

/-- Check a list of times, where flags say which there are; gives its size.  A
    single time may stand there whatever the flags say, and flags without a
    meaning count for the length alone. -/
def checkTimes (length : Nat) (content : Bytes) : Except Fault Nat := do
  need 1 content
  let flags := word content 0 1
  let times (limit : Nat) : Nat := (List.range limit).countP flags.testBit
  check (length = 5 || length = 1 + 4 * times 8)
  let size := if length = 5 then 5 else 1 + 4 * times 3
  need size content
  return size

/-- Read the content of a field of the given kind and length, and how many
    bytes it takes. -/
def readContent (kind length : Nat) (content : Bytes) : Except Fault (ExtraField × Nat) :=
  match kind with
  | 0x000A => do
    checkFileTimes length content
    return (other, length)
  | 0x5455 => do return (other, ← checkTimes length content)
  | 0x6375 => do
    let (checksum, text) ← readText length content
    return (comment checksum text, length)
  | 0x7075 => do
    let (checksum, text) ← readText length content
    return (name checksum text, length)
  | 0x9901 => do
    checkLock length content
    return (lock, length)
  | _ => do
    need length content
    return (other, length)

/-- How many bytes the kind and the length of a field take. -/
def headSize : Nat := 4

/-- Read a field, and how many bytes its content takes. -/
def read (bytes : Bytes) : Except Fault (ExtraField × Nat) := do
  need headSize bytes
  readContent (word bytes 0 2) (word bytes 2 2) (bytes.drop headSize)

end ExtraField

/-- What is known of an entry from its texts and its extra fields. -/
structure Description where
  /-- The name as it is stored. -/
  stored : Bytes
  name : String
  comment : String
  /-- Whether the entry is locked by a password. -/
  isLocked : Bool
  deriving DecidableEq

namespace Description

/-- The text that bytes spell in UTF-8, if they do. -/
def utf8? (bytes : Bytes) : Option String := String.fromUTF8? ⟨bytes.toArray⟩

/-- Add what a field says; none if it is about another text. -/
def add (known : Description) : ExtraField → Option Description
  | .name checksum text =>
    if crc32 known.stored = checksum then
      (utf8? text).map fun name => { known with stored := text, name := name }
    else none
  | .comment checksum text =>
    if crc32 known.comment.toUTF8.toList = checksum then
      (utf8? text).map fun comment => { known with comment := comment }
    else none
  | .lock => some { known with isLocked := true }
  | .other => some known

/-- Add what all extra fields say. -/
def addAll (known : Description) (fields : Bytes) : Option Description :=
  match fields with
  | [] => some known
  | first :: rest =>
    match ExtraField.read (first :: rest) with
    | .error .ended => some known
    | .error .malformed => none
    | .ok (field, size) =>
      (known.add field).bind fun known =>
        known.addAll ((first :: rest).drop (ExtraField.headSize + size))
termination_by fields.length
decreasing_by
  rw [List.length_drop, ExtraField.headSize, List.length_cons]
  omega

end Description

end JvmClass.Archive
