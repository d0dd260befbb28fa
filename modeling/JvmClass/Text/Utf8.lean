/-
  Text from bytes that may not be UTF-8.

  * `Utf8.next` reads one character; where there is none it gives the
    replacement character for the longest start of one;
  * `Utf8.decode` reads a whole string of bytes.
-/
import JvmClass.Bytes.BigEndian

namespace JvmClass.Text.Utf8

/-- What stands for bytes that are no character. -/
def replacement : Char := '\ufffd'

/-- Whether a byte goes on with a character. -/
def isContinuation (b : UInt8) : Bool := 0x80 ≤ b && b ≤ 0xBF

/-- The number of bytes after the first one `b`, and the bounds of the second;
    `none` if no longer character starts with `b`. -/
def shape (b : UInt8) : Option (Nat × UInt8 × UInt8) :=
  if 0xC2 ≤ b && b ≤ 0xDF then some (1, 0x80, 0xBF)
  else if b = 0xE0 then some (2, 0xA0, 0xBF)
  else if b = 0xED then some (2, 0x80, 0x9F)
  else if 0xE1 ≤ b && b ≤ 0xEF then some (2, 0x80, 0xBF)
  else if b = 0xF0 then some (3, 0x90, 0xBF)
  else if 0xF1 ≤ b && b ≤ 0xF3 then some (3, 0x80, 0xBF)
  else if b = 0xF4 then some (3, 0x80, 0x8F)
  else none

/-- The character whose first byte is `b`, followed by `more`. -/
def assemble (b : UInt8) (more : Bytes) : Char :=
  let lead := b.toNat % (64 >>> more.length)
  Char.ofNat (more.foldl (fun n c => n * 64 + c.toNat % 64) lead)

/-- The first character, and how many bytes after `b` it takes. -/
def next (b : UInt8) (rest : Bytes) : Char × Nat :=
  if b < 0x80 then (Char.ofNat b.toNat, 0)
  else
    match shape b, rest with
    | some (count, low, high), second :: others =>
      if low ≤ second && second ≤ high then
        let more := second :: (others.take (count - 1)).takeWhile isContinuation
        (if more.length = count then assemble b more else replacement, more.length)
      else (replacement, 0)
    | _, _ => (replacement, 0)

/-- The text that a string of bytes spells. -/
def decode (bytes : Bytes) : List Char :=
  match bytes with
  | [] => []
  | b :: rest =>
    let (c, count) := next b rest
    c :: decode (rest.drop count)
termination_by bytes.length
decreasing_by exact Nat.lt_succ_of_le (List.length_drop .. ▸ Nat.sub_le ..)

end JvmClass.Text.Utf8
