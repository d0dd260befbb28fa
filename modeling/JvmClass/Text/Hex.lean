/-
  Hexadecimal numbers in texts.

  * `hex n` is `n` in lower-case hexadecimal without leading zeros;
  * `hexPadded width n` fills up with zeros to at least `width` digits.
-/

namespace JvmClass.Text

/-- The number `n` in lower-case hexadecimal, without leading zeros. -/
def hex (n : Nat) : String :=
  String.ofList (Nat.toDigits 16 n)

/-- The number `n` in lower-case hexadecimal, with zeros in front up to `width`
    digits. -/
def hexPadded (width n : Nat) : String :=
  let digits := Nat.toDigits 16 n
  String.ofList (List.replicate (width - digits.length) '0' ++ digits)

end JvmClass.Text
