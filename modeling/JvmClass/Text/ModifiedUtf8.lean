/-
  The modified UTF-8 of class files: each UTF-16 code unit is written by
  itself in one, two or three bytes, and the unit `0` takes two.

  * `encode` writes a text, `encodeUnit` one of its units;
  * `decode` reads any string of bytes: a byte that starts no sequence becomes
    `U+FFFD` and reading goes on with the next one.  Plain ASCII is read
    directly, anything else by way of its units (`decodeUnits`).
-/
import JvmClass.Bytes.BigEndian
import JvmClass.Text.Utf16

namespace JvmClass.ModifiedUtf8

/-! ## Writing -/

/-- The bytes of a code unit: one for `1` to `0x7F`, two for `0` and up to
    `0x7FF`, else three. -/
def encodeUnit (unit : Nat) : Bytes :=
  if 1 ≤ unit ∧ unit < 0x80 then [UInt8.ofNat unit]
  else if unit < 0x800 then
    [UInt8.ofNat (0xC0 + unit / 0x40), UInt8.ofNat (0x80 + unit % 0x40)]
  else
    [UInt8.ofNat (0xE0 + unit / 0x1000), UInt8.ofNat (0x80 + unit / 0x40 % 0x40),
      UInt8.ofNat (0x80 + unit % 0x40)]

/-- The modified UTF-8 form of a text. -/
def encode (text : String) : Bytes := (Utf16.ofString text).flatMap encodeUnit

/-! ## Reading -/

/-- A byte `10xxxxxx`. -/
def isContinuation (b : UInt8) : Bool := b.toNat / 0x40 == 2

/-- The unit of a byte `110xxxxx` and a continuation byte. -/
def unit2 (b c : UInt8) : Nat := b.toNat % 0x20 * 0x40 + c.toNat % 0x40

/-- The unit of a byte `1110xxxx` and two continuation bytes. -/
def unit3 (b c d : UInt8) : Nat :=
  b.toNat % 0x10 * 0x1000 + c.toNat % 0x40 * 0x40 + d.toNat % 0x40

/-- The unit that stands for a byte which starts no sequence. -/
def invalidUnit : Nat := 0xFFFD

/-- The unit of a byte by itself. -/
def unit1 (b : UInt8) : Nat := if b.toNat < 0x80 then b.toNat else invalidUnit

/-- The code units of a string of bytes, after the units `done` in reverse. -/
def unitsRev (done : List Nat) : Bytes → List Nat
  | [] => done.reverse
  | [b] => (unit1 b :: done).reverse
  | [b, c] =>
    if b.toNat / 0x20 = 6 ∧ isContinuation c then (unit2 b c :: done).reverse
    else unitsRev (unit1 b :: done) [c]
  | b :: c :: d :: rest =>
    if b.toNat / 0x20 = 6 ∧ isContinuation c then unitsRev (unit2 b c :: done) (d :: rest)
    else if b.toNat / 0x10 = 14 ∧ isContinuation c ∧ isContinuation d then
      unitsRev (unit3 b c d :: done) rest
    else unitsRev (unit1 b :: done) (c :: d :: rest)

/-- The text that a string of bytes spells, read unit by unit. -/
def decodeUnits (bytes : Bytes) : String := Utf16.decode (unitsRev [] bytes)

/-- A byte that spells an ASCII character other than `NUL`. -/
def isPlain (b : UInt8) : Bool := 1 ≤ b.toNat && b.toNat < 0x80

/-- The text that a string of bytes spells. -/
def decode (bytes : Bytes) : String :=
  if bytes.all isPlain then String.ofList (bytes.map fun b => Char.ofNat b.toNat)
  else decodeUnits bytes

end JvmClass.ModifiedUtf8
