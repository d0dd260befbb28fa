/-
  Questions about class files, and stripping them.

  * `isClass` looks for the number that class files start with, `isValid`
    reads everything but the frames;
  * `version` and `access` give a default when there is nothing to read;
  * `stripDebug` writes a class file again without its debug information.
-/
import JvmClass.ClassFile.Writing

namespace JvmClass.ClassFile

/-- Whether bytes begin like a class file and go on after that. -/
def isClass (bytes : Bytes) : Bool :=
  decide (bytes.length > 4) && bytes.take 4 == Bytes.u4 magic

/-- Whether bytes are a class file; its frames are not looked at. -/
def isValid (bytes : Bytes) : Bool :=
  isClass bytes && (decode bytes { skipFrames := true }).isOk

/-- The major version in the header, that of Java 8 if there is none. -/
def version (bytes : Bytes) : UInt16 :=
  match bytes.drop 6 with
  | high :: low :: _ => UInt16.ofNat (Bytes.toNat [high, low])
  | _ => defaultMajorVersion

/-- The access flags of the class, 0 if they cannot be read. -/
def access (bytes : Bytes) : UInt16 :=
  match decodeAccess bytes with
  | .ok access => access.bits
  | .error _ => 0

/-- Bytes this few cannot hold debug information. -/
def stripThreshold : Nat := 10

/-- A class file without source files, line numbers, local variables and names
    of parameters. -/
def stripDebug (bytes : Bytes) : Except Error Bytes :=
  if bytes.length ≤ stripThreshold then return bytes
  else do
    let record ← (decode bytes { skipDebug := true, expandFrames := true }).mapError .malformed
    (encode record {} .trivial).mapError .invalid

end JvmClass.ClassFile
