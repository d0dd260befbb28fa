/-
  UTF-16 code units.

  * a code unit is a number below `0x10000`; `units c` are the one or two
    units of a character, and `ofString` those of a text;
  * `decode` reads units back; a surrogate without its partner becomes
    `U+FFFD`.
-/

namespace JvmClass.Utf16

/-- The character that stands for what cannot be decoded. -/
def replacement : Char := '\uFFFD'

/-- The first unit of a surrogate pair. -/
def isHigh (unit : Nat) : Bool := 0xD800 ≤ unit && unit < 0xDC00

/-- The second unit of a surrogate pair. -/
def isLow (unit : Nat) : Bool := 0xDC00 ≤ unit && unit < 0xE000

/-- The units of a character: itself in the first plane, else a surrogate
    pair. -/
def units (c : Char) : List Nat :=
  if c.toNat < 0x10000 then [c.toNat]
  else [0xD800 + (c.toNat - 0x10000) / 0x400, 0xDC00 + (c.toNat - 0x10000) % 0x400]

/-- The units of a text. -/
def ofString (text : String) : List Nat := text.toList.flatMap units

/-- The character that a surrogate pair stands for. -/
def pair (high low : Nat) : Char :=
  Char.ofNat (0x10000 + (high - 0xD800) * 0x400 + (low - 0xDC00))

/-- The character of a unit that no other belongs to. -/
def single (unit : Nat) : Char :=
  if isHigh unit || isLow unit then replacement else Char.ofNat unit

/-- The characters of a list of units, after the characters `done` in
    reverse. -/
def decodeRev (done : List Char) : List Nat → List Char
  | [] => done.reverse
  | [unit] => (single unit :: done).reverse
  | unit :: next :: rest =>
    if isHigh unit && isLow next then decodeRev (pair unit next :: done) rest
    else decodeRev (single unit :: done) (next :: rest)

/-- The text that a list of units spells; an unpaired surrogate becomes
    `U+FFFD`. -/
def decode (units : List Nat) : String := String.ofList (decodeRev [] units)

end JvmClass.Utf16
