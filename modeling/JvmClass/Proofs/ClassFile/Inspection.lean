/-
  Questions about class files that were read.

  * `header_of_runOn`: the bytes that a class file with a header starts with;
  * `isClass_of_decode`, `version_of_decode` and `decodeAccess_of_decode`: the
    questions that look at the start of a class file agree with reading all of
    it.
-/
import JvmClass.ClassFile.Inspection
import JvmClass.Proofs.Bytes.Numbers
import JvmClass.Proofs.ClassFile.Walk

namespace JvmClass

namespace ClassFile

open Reader

variable {bytes : Bytes} {options : DecodeOptions} {record : ClassRecord}

theorem header_of_runOn {header : Header} {c : Cursor}
    (h : readHeader.runOn bytes = .ok (header, c)) :
    ∃ rest, bytes = Bytes.u4 magic ++
      (Bytes.u2 header.minorVersion ++ (Bytes.u2 header.majorVersion ++ rest)) := by
  have hstart : (Cursor.ofBytes bytes).rest = bytes := by simp [Cursor.ofBytes, Cursor.rest]
  obtain ⟨found, c₁, hfound, h⟩ := bind_eq_ok.mp (runOn_eq_ok.mp h)
  rw [u4_eq_ok hfound] at hstart
  split at h
  next hmagic =>
    obtain ⟨minor, c₂, hminor, h⟩ := bind_eq_ok.mp h
    obtain ⟨major, c₃, hmajor, h⟩ := bind_eq_ok.mp h
    obtain ⟨count, c₄, hcount, h⟩ := bind_eq_ok.mp h
    obtain ⟨pool, c₅, hpool, h⟩ := bind_eq_ok.mp h
    cases h
    rw [u2_eq_ok hminor, u2_eq_ok hmajor, hmagic] at hstart
    exact ⟨c₃.rest, hstart.symm⟩
  next => cases h

theorem readClass_of_decode (h : decode bytes options = .ok record) :
    ∃ header c bootstraps d, readHeader.runOn bytes = .ok (header, c) ∧
      readClass ⟨header.pool, bootstraps⟩ options header.minorVersion header.majorVersion c =
        .ok record d := by
  obtain ⟨header, c, d, hheader, hbehind⟩ := decode_eq_ok.mp h
  obtain ⟨bootstraps, e, -, hclass⟩ := readBehind_eq_ok hbehind
  exact ⟨header, c, bootstraps, d, hheader, hclass⟩

theorem isClass_of_decode (h : decode bytes options = .ok record) : isClass bytes = true := by
  obtain ⟨header, c, bootstraps, d, hheader, -⟩ := readClass_of_decode h
  obtain ⟨rest, rfl⟩ := header_of_runOn hheader
  have hlength : (Bytes.u4 magic).length = 4 := Bytes.length_ofNat ..
  rw [isClass, List.take_left' hlength, beq_self_eq_true, Bool.and_true, decide_eq_true_eq,
    List.length_append, List.length_append, hlength]
  simp only [Bytes.u2, Bytes.length_ofNat]
  omega

theorem start_of_readClass {linkage : Linkage} {minorVersion majorVersion : UInt16}
    {c d : Cursor} (h : readClass linkage options minorVersion majorVersion c = .ok record d) :
    record.majorVersion = majorVersion ∧ ∃ e, u2 c = .ok record.access.bits e := by
  obtain ⟨access, e, haccess, h⟩ := bind_eq_ok.mp h
  have hstart : record.majorVersion = majorVersion ∧ record.access.bits = access := by
    refine Produces.after (Q := fun record : ClassRecord => record.majorVersion = majorVersion ∧
      record.access.bits = access) (fun _ => ?_) e record d h
    refine .after fun _ => .after fun _ => .after fun _ => .after fun _ => ?_
    refine .after fun _ => .after fun _ => .after fun _ => .after fun _ => ?_
    exact .after fun _ => .pure ⟨rfl, rfl⟩
  exact ⟨hstart.1, e, hstart.2 ▸ haccess⟩

theorem version_of_decode (h : decode bytes options = .ok record) :
    version bytes = record.majorVersion := by
  obtain ⟨header, c, bootstraps, d, hheader, hclass⟩ := readClass_of_decode h
  obtain ⟨rest, rfl⟩ := header_of_runOn hheader
  rw [(start_of_readClass hclass).1]
  have hsix : (Bytes.u4 magic ++ Bytes.u2 header.minorVersion).length = 6 := by
    rw [List.length_append, Bytes.u4, Bytes.u2, Bytes.length_ofNat, Bytes.length_ofNat]
  have hword : ∀ v : UInt16, UInt16.ofNat (Bytes.toNat (Bytes.u2 v)) = v := by
    intro v
    rw [Bytes.u2, Bytes.toNat_ofNat, Nat.mod_eq_of_lt (show v.toNat < Nat.pow 256 2 from v.toNat_lt),
      UInt16.ofNat_toNat]
  rw [version, ← List.append_assoc, List.drop_left' hsix]
  exact hword header.majorVersion

theorem decodeAccess_of_decode (h : decode bytes options = .ok record) :
    decodeAccess bytes = .ok record.access := by
  obtain ⟨header, c, bootstraps, d, hheader, hclass⟩ := readClass_of_decode h
  obtain ⟨-, e, haccess⟩ := start_of_readClass hclass
  refine Result.map_eq_ok.mpr ⟨(record.access, e), runOn_eq_ok.mpr ?_, rfl⟩
  exact bind_eq_ok.mpr ⟨header, c, runOn_eq_ok.mp hheader,
    bind_eq_ok.mpr ⟨record.access.bits, e, haccess, rfl⟩⟩

theorem access_of_decode (h : decode bytes options = .ok record) :
    access bytes = record.access.bits := by
  rw [access, decodeAccess_of_decode h]

end ClassFile

end JvmClass
