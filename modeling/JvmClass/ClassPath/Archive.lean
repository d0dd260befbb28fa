/-
  Archives, as they are opened by a library, and those that hold class files.

  * an `Archive` lists the names of its entries and gives their contents;
  * an `Unzip` is a library that opens archives: how they are laid out, and how
    entries are compressed in them, is its affair;
  * a `Jar` is an archive with class files below a `base`: everywhere in a jar,
    below `classes/` in a module;
  * `Jar.classFiles` names the class files in it, `Jar.content` gives any
    entry.
-/
import JvmClass.Bytes.BigEndian

namespace JvmClass

/-- Why an archive does not open, or an entry cannot be read. -/
inductive ArchiveError where
  | noEntry
  | unreadable
  deriving DecidableEq, Repr

/-- An archive that was opened. -/
structure Archive where
  /-- The names of the entries, as they are stored. -/
  names : List String
  /-- The content of an entry, from what the archive consists of by now. -/
  content : (bytes : Bytes) → (name : String) → Except ArchiveError Bytes
  /-- Entries are read by their names. -/
  mem_names : ∀ {bytes name entry}, content bytes name = .ok entry → name ∈ names

/-- A library that opens archives. -/
abbrev Unzip := (bytes : Bytes) → Except ArchiveError Archive

/-- An archive of class files. -/
structure Jar where
  archive : Archive
  /-- What the names of the class files begin with. -/
  base : String

namespace Jar

/-- A jar. -/
def ofBytes (unzip : Unzip) (bytes : Bytes) : Except ArchiveError Jar := do
  return ⟨← unzip bytes, ""⟩

/-- A module; its classes are below `classes/`. -/
def moduleOfBytes (unzip : Unzip) (bytes : Bytes) : Except ArchiveError Jar := do
  return ⟨← unzip bytes, "classes/"⟩

/-- Whether an entry is a class file. -/
def holdsClass (jar : Jar) (name : String) : Bool :=
  jar.base.toList.isPrefixOf name.toList && ".class".toList.isSuffixOf name.toList

/-- The names of the class files, in the order of the archive. -/
def classFiles (jar : Jar) : List String := jar.archive.names.filter jar.holdsClass

/-- The content of an entry, from what the archive consists of by now. -/
def content (jar : Jar) (bytes : Bytes) (name : String) : Except ArchiveError Bytes :=
  jar.archive.content bytes name

end Jar

end JvmClass
