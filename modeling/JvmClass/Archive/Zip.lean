/-
  Zip archives.

  * names of entries are stored as UTF-8 or, by default, in the character set of
    the first personal computers (`codePage437`); `decodeName` reads either;
  * `Zip.ofBytes` reads the directory of an archive, which stands at its end;
    bytes in front of the archive shift everything, and whether the offsets
    count them is found out from where the directory is;
  * `Zip.names` lists the entries in the order of the directory, each name
    once;
  * `Zip.content` gives the bytes of a stored entry;
  * `Zip.unzip` is a library that opens archives whose entries are stored as they
    are; entries that are compressed cannot be read.
-/
import JvmClass.Archive.ExtraField
import JvmClass.ClassPath.Archive
import JvmClass.Text.Utf8

namespace JvmClass.Archive

open Bytes

/-- The upper half of the default character set of entry names. -/
def codePage437 : List Char :=
  ("ÇüéâäàåçêëèïîìÄÅÉæÆôöòûùÿÖÜ¢£¥₧ƒ" ++
    "áíóúñÑªº¿⌐¬½¼¡«»░▒▓│┤╡╢╖╕╣║╗╝╜╛┐" ++
    "└┴┬├─┼╞╟╚╔╩╦╠═╬╧╨╤╥╙╘╒╓╫╪┘┌█▄▌▐▀" ++
    "αßΓπΣσµτΦΘΩδ∞φε∩≡±≥≤⌠⌡÷≈°∙·√ⁿ²■\u00a0").toList

/-- The text of an entry name. -/
def decodeName (isUtf8 : Bool) (bytes : Bytes) : String :=
  if isUtf8 then String.ofList (Text.Utf8.decode bytes)
  else
    String.ofList <| bytes.map fun b =>
      if b < 0x80 then Char.ofNat b.toNat else codePage437.getD (b.toNat - 0x80) '?'

/-- Why an archive, or an entry of it, cannot be read. -/
inductive ZipError where
  | notAnArchive
  | noEntry
  | encrypted
  | compressed (method : Nat)
  | noHeader
  | checksum
  deriving DecidableEq, Repr

namespace Zip

/-- What the directory says of an entry. -/
structure Entry where
  name : String
  /-- Whether the content can be had only with a password. -/
  encrypted : Bool
  /-- How the content is compressed; 0 if it is stored as it is. -/
  method : Nat
  checksum : UInt32
  /-- How many bytes are stored. -/
  size : Nat
  /-- Where the header in front of the content is. -/
  header : Nat
  deriving DecidableEq, Repr

/-- The mark of the header in front of an entry's content. -/
def headerMark : Bytes := [0x50, 0x4B, 0x03, 0x04]

/-- The mark of an entry in the directory. -/
def entryMark : Bytes := [0x50, 0x4B, 0x01, 0x02]

/-- The mark of the record after the directory. -/
def endMark : Bytes := [0x50, 0x4B, 0x05, 0x06]

/-- The offsets at which `mark` stands, the last one first. -/
def offsetsOf (mark bytes : Bytes) : List Nat :=
  go 0 [] bytes
where
  go (offset : Nat) (found : List Nat) : Bytes → List Nat
    | [] => found
    | b :: rest =>
      go (offset + 1) (if mark.isPrefixOf (b :: rest) then offset :: found else found) rest

/-- What is known of an entry from its name, its extra fields and its
    comment. -/
def describe (isUtf8 : Bool) (name fields comment : Bytes) : Option Description :=
  let known : Description := ⟨name, decodeName isUtf8 name, decodeName isUtf8 comment, false⟩
  known.addAll fields

/-- The method of entries that are locked by a password; an extra field says
    how. -/
def lockedMethod : Nat := 99

/-- Read one entry of the directory, of an archive that begins at offset
    `shift`; gives the bytes after it as well. -/
def readEntry (shift : Nat) (bytes : Bytes) : Option (Entry × Bytes) := do
  let flags := word bytes 8 2
  let method := word bytes 10 2
  let (name, rest) := (bytes.drop 46).splitAt (word bytes 28 2)
  let (fields, rest) := rest.splitAt (word bytes 30 2)
  let (comment, rest) := rest.splitAt (word bytes 32 2)
  let length := 46 + word bytes 28 2 + word bytes 30 2 + word bytes 32 2
  if bytes.length < length || !entryMark.isPrefixOf bytes then none
  let known ← describe (flags.testBit 11) name fields comment
  if method = lockedMethod && !known.isLocked then none
  let entry := {
    name := known.name
    encrypted := flags.testBit 0 || known.isLocked
    method := method
    checksum := UInt32.ofNat (word bytes 16 4)
    size := word bytes 20 4
    header := word bytes 42 4 + shift }
  return (entry, rest)

/-- Read `count` entries of the directory. -/
def readEntries (shift : Nat) : (count : Nat) → Bytes → Option (List Entry)
  | 0, _ => some []
  | count + 1, bytes => do
    let (entry, rest) ← readEntry shift bytes
    return entry :: (← readEntries shift count rest)

/-- Where the directory starts that the record at offset `stop` speaks of, and
    where the archive does. -/
def findDirectory (bytes : Bytes) (stop : Nat) : Option (Nat × Nat) :=
  let record := bytes.drop stop
  let offset := word record 16 4
  if word record 10 2 = 0 then
    let shift := stop - offset
    some (offset + shift, shift)
  else
    let directory := (bytes.take stop).drop offset
    match (offsetsOf entryMark directory).getLast? with
    | some shift => if offset < stop then some (offset + shift, shift) else none
    | none => none

/-- The entries of the directory that the record at offset `stop` speaks of. -/
def entriesAt (bytes : Bytes) (stop : Nat) : Option (List Entry) := do
  let record := bytes.drop stop
  if record.length < 22 + word record 20 2 then none
  let (start, shift) ← findDirectory bytes stop
  if word record 4 2 ≠ word record 6 2 then none
  readEntries shift (word record 8 2) (bytes.drop start)

/-- The entries with an entry added; it takes the place of an earlier one of
    the same name. -/
def addEntry (entries : List Entry) (entry : Entry) : List Entry :=
  if entries.any (·.name == entry.name) then
    entries.map fun other => if other.name = entry.name then entry else other
  else entries ++ [entry]

end Zip

/-- A zip archive and the entries of its directory. -/
structure Zip where
  bytes : Bytes
  entries : List Zip.Entry

namespace Zip

/-- The archive that ends in the last record that can be believed. -/
def ofBytes (bytes : Bytes) : Except ZipError Zip :=
  match (offsetsOf endMark bytes).findSome? (entriesAt bytes) with
  | some entries => .ok ⟨bytes, entries.foldl addEntry []⟩
  | none => .error .notAnArchive

/-- The names of the entries, in the order of the directory. -/
def names (zip : Zip) : List String := zip.entries.map (·.name)

/-- The stored bytes of an entry: they follow its header. -/
def stored (zip : Zip) (entry : Entry) : Except ZipError Bytes :=
  let header := zip.bytes.drop entry.header
  if header.length < 30 || !headerMark.isPrefixOf header then .error .noHeader
  else .ok ((header.drop (30 + word header 26 2 + word header 28 2)).take entry.size)

/-- The content of the entry `name`. -/
def content (zip : Zip) (name : String) : Except ZipError Bytes := do
  match zip.entries.find? (·.name == name) with
  | none => throw .noEntry
  | some entry =>
    if entry.encrypted then throw .encrypted
    let bytes ← zip.stored entry
    if entry.method ≠ 0 then throw (.compressed entry.method)
    if crc32 bytes ≠ entry.checksum then throw .checksum
    return bytes

/-! ## Opening archives -/

theorem mem_names_of_content {zip : Zip} {name : String} {entry : Bytes}
    (h : zip.content name = .ok entry) : name ∈ zip.names := by
  cases hfind : zip.entries.find? (·.name == name) with
  | none =>
    unfold content at h
    rw [hfind] at h
    exact nomatch h
  | some found =>
    have hname : found.name = name := by simpa using List.find?_some hfind
    exact hname ▸ List.mem_map_of_mem (List.mem_of_find?_eq_some hfind)

/-- An archive whose directory was read. -/
def opened (zip : Zip) : Archive where
  names := zip.names
  content bytes name :=
    match content ⟨bytes, zip.entries⟩ name with
    | .ok entry => .ok entry
    | .error .noEntry => .error .noEntry
    | .error _ => .error .unreadable
  mem_names {bytes name _} h := by
    split at h
    next heq =>
      have hmem : name ∈ names ⟨bytes, zip.entries⟩ := mem_names_of_content heq
      exact hmem
    next => exact nomatch h
    next => exact nomatch h

/-- Open an archive. -/
def unzip : Unzip := fun bytes =>
  match ofBytes bytes with
  | .ok zip => .ok zip.opened
  | .error _ => .error .unreadable

end Zip

end JvmClass.Archive
