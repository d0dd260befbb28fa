/-
  Big-endian words.

  * `Bytes` is a string of bytes; `Bytes.toNat` reads one as a number, most
    significant byte first, and `Bytes.ofNat width n` writes the low `width`
    bytes of `n` in the same order;
  * `u1`, `u2`, `u4` and `u8` are the written forms of the fixed-width words;
  * `toNat_ofNat` and `ofNat_toNat`: reading and writing are inverse on
    numbers that fit the width and on strings of that length.
-/

namespace JvmClass

/-- A string of bytes. -/
abbrev Bytes := List UInt8

namespace Bytes

/-- The number a string of bytes spells, most significant byte first. -/
def toNat (bytes : Bytes) : Nat :=
  bytes.foldl (fun n b => n * 256 + b.toNat) 0

/-- The low `width` bytes of `n`, most significant byte first. -/
def ofNat : (width n : Nat) → Bytes
  | 0, _ => []
  | width + 1, n => ofNat width (n / 256) ++ [UInt8.ofNat n]

/-- The written form of a byte. -/
def u1 (value : UInt8) : Bytes := [value]

/-- The written form of a 16-bit word. -/
def u2 (value : UInt16) : Bytes := ofNat 2 value.toNat

/-- The written form of a 32-bit word. -/
def u4 (value : UInt32) : Bytes := ofNat 4 value.toNat

/-- The written form of a 64-bit word. -/
def u8 (value : UInt64) : Bytes := ofNat 8 value.toNat

/-! ## Reading and writing are inverse -/

theorem toNat_append_singleton (bytes : Bytes) (b : UInt8) :
    toNat (bytes ++ [b]) = toNat bytes * 256 + b.toNat := by
  simp [toNat, List.foldl_append]

@[simp] theorem length_ofNat (width n : Nat) : (ofNat width n).length = width := by
  induction width generalizing n with
  | zero => rfl
  | succ width ih => simp [ofNat, ih]

theorem toNat_ofNat (width n : Nat) : toNat (ofNat width n) = n % Nat.pow 256 width := by
  induction width generalizing n with
  | zero => exact (Nat.mod_one n).symm
  | succ width ih =>
    have hpow : Nat.pow 256 (width + 1) = 256 * Nat.pow 256 width := Nat.mul_comm ..
    rw [ofNat, toNat_append_singleton, ih, hpow, Nat.mod_mul, UInt8.toNat_ofNat']
    omega

theorem ofNat_toNat (bytes : Bytes) : ofNat bytes.length (toNat bytes) = bytes := by
  induction h : bytes.length generalizing bytes with
  | zero => simp_all [ofNat]
  | succ n ih =>
    obtain ⟨front, last, rfl⟩ : ∃ front last, bytes = front ++ [last] :=
      ⟨bytes.dropLast, bytes.getLast (by rintro rfl; simp at h),
        (List.dropLast_concat_getLast _).symm⟩
    have hfront : front.length = n := by simpa using h
    rw [ofNat, toNat_append_singleton]
    have hdiv : (toNat front * 256 + last.toNat) / 256 = toNat front := by
      have := last.toNat_lt; omega
    have hlast : UInt8.ofNat (toNat front * 256 + last.toNat) = last := by
      apply UInt8.toNat_inj.mp
      rw [UInt8.toNat_ofNat']
      have := last.toNat_lt; omega
    rw [hdiv, hlast, ih front hfront]

end Bytes

end JvmClass
