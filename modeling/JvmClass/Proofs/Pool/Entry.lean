/-
  Constant pool entries survive writing.

  * `Entry.reads_write`: the bytes of an entry are read as that entry;
  * `Pool.reads_slots`: entries written one after the other are read into the
    slots that they fill.
-/
import JvmClass.Pool.Table
import JvmClass.Proofs.Bytes.Reads
import JvmClass.Proofs.Text.RoundTrip

namespace JvmClass.Pool

open Reader

namespace Entry

theorem write_utf8 {text : String} {w : Bytes} (h : (utf8 text).write = .ok w) :
    (ModifiedUtf8.encode text).length ≤ 0xFFFF ∧
      w = 1 :: (Bytes.u2 (UInt16.ofNat (ModifiedUtf8.encode text).length) ++
        ModifiedUtf8.encode text) := by
  simp only [write] at h
  split at h
  next => exact nomatch h
  next hlength =>
    cases h
    exact ⟨by omega, by simp⟩

/-- The only entry that cannot be written is a text that is too long. -/
theorem error_of_write {entry : Entry} {cause : Invalid} (h : entry.write = .error cause) :
    ∃ text, entry = .utf8 text ∧ 0xFFFF < (ModifiedUtf8.encode text).length ∧
      cause = .utf8Length (ModifiedUtf8.encode text).length := by
  cases entry with
  | utf8 text =>
    simp only [write] at h
    split at h
    next hlong => cases h; exact ⟨text, rfl, hlong, rfl⟩
    next => exact nomatch h
  | _ => exact nomatch h

theorem reads_write {entry : Entry} {w : Bytes} (h : entry.write = .ok w)
    (hreserved : entry ≠ .reserved) : Reads Entry.read w entry := by
  intro before after
  refine (reads_position before (w ++ after)).bindNil ?_
  cases entry with
  | reserved => exact absurd rfl hreserved
  | utf8 text =>
    obtain ⟨hlength, rfl⟩ := write_utf8 h
    have hcount : (ModifiedUtf8.encode text).length =
        (UInt16.ofNat (ModifiedUtf8.encode text).length).toNat := by
      rw [UInt16.toNat_ofNat']; omega
    have htake := (reads_take_of_length hcount).map (g := fun bytes => utf8 (ModifiedUtf8.decode bytes))
    rw [ModifiedUtf8.decode_encode] at htake
    exact Reads.consU1 ((reads_u2 _).bind htake) before after
  | integer value => cases h; exact Reads.consU1 (reads_i4 value).map before after
  | float bits => cases h; exact Reads.consU1 (reads_u4 bits).map before after
  | long value => cases h; exact Reads.consU1 (reads_i8 value).map before after
  | double bits => cases h; exact Reads.consU1 (reads_u8 bits).map before after
  | classRef index | string index | methodType index | module index | package index =>
    cases h; exact Reads.consU1 (reads_u2 index).map before after
  | fieldRef first second | methodRef first second | interfaceMethodRef first second
  | nameAndType first second | dynamic first second | invokeDynamic first second =>
    cases h; exact Reads.consU1 ((reads_u2 first).bind (reads_u2 second).map) before after
  | methodHandle kind member =>
    cases h
    exact Reads.consU1 ((reads_u1 kind).bind (reads_u2 member).map) before after

end Entry

/-- An entry with its bytes. -/
def Written (entry : Entry) (w : Bytes) : Prop := entry ≠ .reserved ∧ entry.write = .ok w

/-- Entries written one after the other are read into the slots that they
    fill. -/
theorem reads_slots {entries : List Entry} {ws : List Bytes}
    (h : List.Forall₂ Written entries ws) (filled : Array Entry) :
    Reads (readSlots (entries.flatMap Entry.slots).length filled) ws.flatten
      (filled ++ (entries.flatMap Entry.slots).toArray) := by
  induction h generalizing filled with
  | nil => simpa [readSlots] using Reads.pure
  | @cons entry w entries ws hentry _ ih =>
    have hread := Entry.reads_write hentry.2 hentry.1
    by_cases hwide : entry.isWide
    · have hslots : entry.slots = [entry, .reserved] := by simp [Entry.slots, hwide]
      have hrest := ih ((filled.push entry).push .reserved)
      simp only [List.flatMap_cons, hslots, List.length_append, List.length_cons,
        List.length_nil, Nat.zero_add, Nat.reduceAdd, Nat.add_comm 2, List.flatten_cons] at hrest ⊢
      rw [readSlots]
      refine hread.bind ?_
      simpa [hwide] using hrest
    · have hslots : entry.slots = [entry] := by simp [Entry.slots, hwide]
      have hrest := ih (filled.push entry)
      simp only [List.flatMap_cons, hslots, List.length_append, List.length_singleton,
        Nat.add_comm 1, List.flatten_cons] at hrest ⊢
      have hpush : filled ++ ([entry] ++ entries.flatMap Entry.slots).toArray =
          filled.push entry ++ (entries.flatMap Entry.slots).toArray := by simp
      rw [hpush]
      -- the last slot is read by an equation of its own
      cases hleft : (entries.flatMap Entry.slots).length with
      | zero =>
        rw [hleft] at hrest
        rw [readSlots]
        exact hread.bind (by simpa [hwide, readSlots] using hrest)
      | succ left =>
        rw [hleft] at hrest
        rw [readSlots]
        exact hread.bind (by simpa [hwide] using hrest)

end JvmClass.Pool
