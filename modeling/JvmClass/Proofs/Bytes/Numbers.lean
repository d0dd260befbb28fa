/-
  Numbers that bytes spell.

  * `Bytes.bigEndian` is the number that bytes spell in positional notation and
    `Bytes.twosComplement` the one that they spell in two's complement;
  * `Bytes.toNat_word` and `Bytes.toInt_word`: a word of as many bytes holds them;
  * `Reader.number_eq_ok`, `Reader.u2_eq_ok` and `Reader.u4_eq_ok`: a number that
    was read is written as the bytes that it was read from.
-/
import JvmClass.Proofs.Bytes.Produces
import Mathlib.Data.List.Induction
import Mathlib.Data.Nat.Digits.Defs

namespace JvmClass

namespace Bytes

/-- The number that bytes spell in positional notation, most significant byte
    first. -/
def bigEndian (bytes : Bytes) : Nat := Nat.ofDigits 256 (bytes.reverse.map UInt8.toNat)

/-- The number that bytes spell in two's complement: from half of the range on,
    the numbers are those below zero. -/
def twosComplement (bytes : Bytes) : Int :=
  if 2 * bytes.bigEndian < 256 ^ bytes.length then bytes.bigEndian
  else bytes.bigEndian - (256 ^ bytes.length : Nat)

theorem toNat_lt (bytes : Bytes) : bytes.toNat < 256 ^ bytes.length := by
  have h := toNat_ofNat bytes.length bytes.toNat
  rw [ofNat_toNat] at h
  rw [h]
  exact Nat.mod_lt _ (Nat.pow_pos (by decide))

theorem toNat_eq_bigEndian (bytes : Bytes) : bytes.toNat = bytes.bigEndian := by
  induction bytes using List.reverseRecOn with
  | nil => rfl
  | append_singleton bytes b ih =>
    rw [toNat_append_singleton, ih]
    simp [bigEndian, Nat.ofDigits_cons, Nat.mul_comm, Nat.add_comm]

theorem toNat_word {bytes : Bytes} {n : Nat} (h : n = 8 * bytes.length) :
    (BitVec.ofNat n bytes.toNat).toNat = bytes.bigEndian := by
  have hpow : 2 ^ n = 256 ^ bytes.length := by rw [h, Nat.pow_mul]
  rw [BitVec.toNat_ofNat, hpow, Nat.mod_eq_of_lt bytes.toNat_lt, toNat_eq_bigEndian]

/-- A signed word of as many bytes holds the number that they spell in two's
    complement. -/
theorem toInt_word {bytes : Bytes} {n : Nat} (h : n = 8 * bytes.length) :
    (BitVec.ofNat n bytes.toNat).toInt = bytes.twosComplement := by
  have hpow : 2 ^ n = 256 ^ bytes.length := by rw [h, Nat.pow_mul]
  rw [BitVec.toInt_eq_toNat_cond, toNat_word h, hpow]
  rfl

example : twosComplement [0xFF, 0xFE] = -2 := by decide

end Bytes

namespace Reader

variable {c d : Cursor}

/-- A number that was read is written as the bytes it was read from. -/
theorem number_eq_ok {k n : Nat} (h : number k c = .ok n d) :
    c.rest = Bytes.ofNat k n ++ d.rest ∧ n < 256 ^ k := by
  obtain ⟨w, e, htake, hn⟩ := bind_eq_ok.mp h
  obtain ⟨hle, rfl, rfl⟩ := take_eq_ok htake
  cases hn
  have hlength : (c.slice k).length = k := by
    rw [Cursor.slice_eq_take, List.length_take, Cursor.length_rest, Cursor.remaining]
    omega
  have hbytes := Bytes.ofNat_toNat (c.slice k)
  have hlt := Bytes.toNat_lt (c.slice k)
  rw [hlength] at hbytes hlt
  refine ⟨?_, hlt⟩
  rw [hbytes, Cursor.slice_eq_take]
  simp only [Cursor.rest, ← List.drop_drop]
  exact (List.take_append_drop k _).symm

theorem u2_eq_ok {v : UInt16} (h : u2 c = .ok v d) : c.rest = Bytes.u2 v ++ d.rest := by
  obtain ⟨n, _, hn, h⟩ := bind_eq_ok.mp h
  cases h
  obtain ⟨hrest, hlt⟩ := number_eq_ok hn
  rw [hrest, Bytes.u2, UInt16.toNat_ofNat', Nat.mod_eq_of_lt (show n < 2 ^ 16 from hlt)]

theorem u4_eq_ok {v : UInt32} (h : u4 c = .ok v d) : c.rest = Bytes.u4 v ++ d.rest := by
  obtain ⟨n, _, hn, h⟩ := bind_eq_ok.mp h
  cases h
  obtain ⟨hrest, hlt⟩ := number_eq_ok hn
  rw [hrest, Bytes.u4, UInt32.toNat_ofNat', Nat.mod_eq_of_lt (show n < 2 ^ 32 from hlt)]

end Reader

end JvmClass
