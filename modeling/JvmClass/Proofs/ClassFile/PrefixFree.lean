/-
  No class file is the beginning of another one.

  * `decode_of_readRecord`: decoding is reading a class that ends where the bytes
    end;
  * `prefixFree_of_decode`: a class file with bytes behind it is refused, and so
    is one that is cut off.
-/
import JvmClass.Proofs.ClassFile.Local

namespace JvmClass.ClassFile

open Reader

variable {options : DecodeOptions}

/-- Decoding is reading a class, which must end where the bytes end. -/
theorem read_eq_readRecord (options : DecodeOptions) :
    read options = readRecord options >>= fun record => do
      let left ← remaining
      unless left = 0 do throw (.trailingBytes left)
      return record := by
  simp only [read, readRecord, peek, bind_assoc, pure_bind]

section
variable {bytes : Bytes} {c : Cursor} {record : ClassRecord} {cause : Malformed}

theorem decode_of_readRecord (h : readRecord options (.ofBytes bytes) = .ok record c) :
    decode bytes options =
      if c.remaining = 0 then .ok record else .error (.trailingBytes c.remaining) := by
  have hleft : remaining c = .ok c.remaining c := rfl
  unfold decode runOn
  rw [read_eq_readRecord, bind_of_ok h, bind_of_ok hleft]
  by_cases hend : c.remaining = 0
  · rw [if_pos hend, if_pos hend]; rfl
  · rw [if_neg hend, if_neg hend]; rfl

theorem decode_of_readRecord_error (h : readRecord options (.ofBytes bytes) = .error cause c) :
    decode bytes options = .error cause := by
  unfold decode runOn
  rw [read_eq_readRecord, bind_of_error h]
  rfl

theorem readRecord_of_decode (h : decode bytes options = .ok record) :
    ∃ c, readRecord options (.ofBytes bytes) = .ok record c ∧ c.bytes = bytes.toArray ∧
      c.position = bytes.length := by
  cases hrun : readRecord options (.ofBytes bytes) with
  | error cause c => rw [decode_of_readRecord_error hrun] at h; cases h
  | ok found c =>
    rw [decode_of_readRecord hrun] at h
    split at h
    next hend =>
      cases h
      obtain ⟨hbytes, -, hinside⟩ := local_readRecord.forward _ _ _ hrun
      have hle : c.position ≤ c.bytes.size := hinside (Nat.zero_le _)
      have hsize : c.bytes.size = bytes.length := by rw [hbytes]; rfl
      refine ⟨c, rfl, hbytes, ?_⟩
      unfold Cursor.remaining at hend
      omega
    next => cases h

end

/-- **No class file is the beginning of another one**: with bytes behind it, it
    is refused for them, and cut off, for those that are missing. -/
theorem prefixFree_of_decode {bytes : Bytes} {record : ClassRecord}
    (h : decode bytes options = .ok record) :
    (∀ more ≠ [], decode (bytes ++ more) options = .error (.trailingBytes more.length)) ∧
      ∀ short, short <+: bytes → short ≠ bytes → ∃ position wanted left,
        decode short options = .error (.unexpectedEnd position wanted left) := by
  obtain ⟨c, hrun, hbytes, hposition⟩ := readRecord_of_decode h
  refine ⟨fun more hmore => ?_, fun short hshort hne => ?_⟩
  · -- Behind the class, reading stops at the same place, where there are bytes left.
    have hlonger := local_readRecord.ok more hrun
    rw [Cursor.extend_ofBytes] at hlonger
    have hleft : (c.extend more).remaining = more.length := by
      simp [Cursor.remaining, Cursor.extend, hbytes, hposition]
    have hpositive : more.length ≠ 0 := fun h => hmore (List.length_eq_zero_iff.mp h)
    rw [decode_of_readRecord hlonger, hleft, if_neg hpositive]
  · obtain ⟨missing, rfl⟩ := hshort
    cases hcut : readRecord options (.ofBytes short) with
    | ok found d =>
      -- The class would end inside the part of the bytes that is left.
      have hlonger := local_readRecord.ok missing hcut
      rw [Cursor.extend_ofBytes, hrun] at hlonger
      cases hlonger
      obtain ⟨hsame, -, hinside⟩ := local_readRecord.forward _ _ _ hcut
      have hle : d.position ≤ d.bytes.size := hinside (Nat.zero_le _)
      have hlength : d.position = short.length + missing.length := by
        simpa [Cursor.extend] using hposition
      have hsize : d.bytes.size = short.length := by rw [hsame]; rfl
      have hnone : missing = [] := List.length_eq_zero_iff.mp (by omega)
      exact absurd (by rw [hnone, List.append_nil]) hne
    | error cause d =>
      rw [decode_of_readRecord_error hcut]
      rcases local_readRecord.error missing hcut with ⟨position, wanted, left, rfl⟩ | ⟨e, hfails⟩
      · exact ⟨position, wanted, left, rfl⟩
      · rw [Cursor.extend_ofBytes, hrun] at hfails
        cases hfails

/-- The bytes of a class file with a call site, a `tableswitch`, a bootstrap
    method and an attribute that is not read. -/
def dispatching : Bytes :=
  [0xCA, 0xFE, 0xBA, 0xBE, 0, 0, 0, 0x34, 0, 0x0E, 1, 0, 1, 0x41, 7, 0, 1, 1, 0, 0x10, 0x6A, 0x61,
    0x76, 0x61, 0x2F, 0x6C, 0x61, 0x6E, 0x67, 0x2F, 0x4F, 0x62, 0x6A, 0x65, 0x63, 0x74, 7, 0, 3, 1,
    0, 1, 0x6D, 1, 0, 3, 0x28, 0x29, 0x56, 1, 0, 4, 0x43, 0x6F, 0x64, 0x65, 1, 0, 0x10, 0x42, 0x6F,
    0x6F, 0x74, 0x73, 0x74, 0x72, 0x61, 0x70, 0x4D, 0x65, 0x74, 0x68, 0x6F, 0x64, 0x73, 1, 0, 1,
    0x58, 0x0F, 6, 0, 0x0B, 0x0A, 0, 2, 0, 0x0C, 0x0C, 0, 5, 0, 6, 0x12, 0, 0, 0, 0x0C, 0, 0x21, 0,
    2, 0, 4, 0, 0, 0, 0, 0, 1, 0, 9, 0, 5, 0, 6, 0, 1, 0, 7, 0, 0, 0, 0x25, 0, 1, 0, 0, 0, 0, 0,
    0x19, 0xBA, 0, 0x0D, 0, 0, 3, 0xAA, 0, 0, 0, 0, 0x12, 0, 0, 0, 0, 0, 0, 0, 0, 0, 0, 0, 0x12,
    0xB1, 0, 0, 0, 0, 0, 2, 0, 8, 0, 0, 0, 6, 0, 1, 0, 0x0A, 0, 0, 0, 9, 0, 0, 0, 1, 0x2A]

/-- A class file for whose call sites the reader looks ahead. -/
theorem prefixFree_of_decode_dispatching :
    (∃ record, decode dispatching {} = .ok record) ∧
      decode (dispatching ++ [0]) {} = .error (.trailingBytes 1) ∧
      ∃ position wanted left,
        decode dispatching.dropLast {} = .error (.unexpectedEnd position wanted left) := by
  have hdecoded : (decode dispatching {}).isOk = true := by decide +kernel
  obtain ⟨record, hrecord⟩ : ∃ record, decode dispatching {} = .ok record := by
    cases hresult : decode dispatching {} with
    | ok record => exact ⟨record, rfl⟩
    | error cause =>
      rw [hresult] at hdecoded
      cases hdecoded
  obtain ⟨hlonger, hshorter⟩ := prefixFree_of_decode hrecord
  refine ⟨⟨record, hrecord⟩, hlonger [0] (List.cons_ne_nil _ _), ?_⟩
  exact hshorter _ (List.dropLast_prefix _) (by decide +kernel)

end JvmClass.ClassFile
