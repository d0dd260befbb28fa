/-
  Little-endian words.

  * `Bytes.littleToNat` reads a string of bytes as a number, least significant
    byte first;
  * `Bytes.word` is such a number in the middle of a string of bytes.
-/
import JvmClass.Bytes.BigEndian

namespace JvmClass.Bytes

/-- The number a string of bytes spells, least significant byte first. -/
def littleToNat (bytes : Bytes) : Nat :=
  bytes.foldr (fun b n => b.toNat + 256 * n) 0

/-- The number of `width` bytes from `start` on, least significant byte
    first. -/
def word (bytes : Bytes) (start width : Nat) : Nat :=
  littleToNat ((bytes.drop start).take width)

end JvmClass.Bytes
