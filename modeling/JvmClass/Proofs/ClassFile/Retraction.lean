/-
  Writing again what was read from a valid class file.

  * `encode_of_isValid`: a valid class file is read with its frames unless one of
    its stack map tables is at fault; what was read is written, and read again as
    its normal form, or it is refused for one of its reasons;
  * `nameless` is a valid class file whose record is refused.
-/
import JvmClass.ClassFile.Inspection
import JvmClass.Proofs.ClassFile.Verbatim

namespace JvmClass.ClassFile

theorem decode_of_isValid {bytes : Bytes} (h : isValid bytes = true) :
    ∃ record, decode bytes { skipFrames := true } = .ok record := by
  rw [isValid, Bool.and_eq_true] at h
  cases hdecode : decode bytes { skipFrames := true } with
  | ok record => exact ⟨record, rfl⟩
  | error cause =>
    rw [hdecode] at h
    exact absurd h.2 Bool.false_ne_true

/-- **A valid class file** is read, unless one of its stack map tables cannot
    be.  What was read is written, and read again as its normal form, unless it
    is refused for one of its reasons. -/
theorem encode_of_isValid {bytes : Bytes} (h : isValid bytes = true) :
    (∃ record, decode bytes {} = .ok record ∧
      ((∃ once, encode record {} .trivial = .ok once ∧ decode once {} = .ok record.normalize) ∨
        ∃ cause, encode record {} .trivial = .error cause ∧ record.Refused cause)) ∨
      ∃ cause pool labels content, decode bytes {} = .error cause ∧
        HasStackMap bytes pool labels content ∧ cause.OfFrames pool labels content := by
  obtain ⟨plain, hplain⟩ := decode_of_isValid h
  rcases framed_or_malformed hplain with ⟨record, hrecord, hframed⟩ | hmalformed
  · refine .inl ⟨record, hrecord, ?_⟩
    obtain ⟨linked, hsound, hroom⟩ := sound_of_decode hrecord
    refine (encode_or_refused hsound hroom hframed.compressed).imp_left ?_
    rintro ⟨once, honce⟩
    exact ⟨once, honce, decode_encode hsound.readable honce⟩
  · exact .inr hmalformed

/-- A class with an attribute that is kept byte for byte is read, written and read
    again. -/
theorem encode_of_isValid_shifted : isValid shifted = true ∧
    ∃ record once, decode shifted {} = .ok record ∧ encode record {} .trivial = .ok once ∧
      decode once {} = .ok record.normalize := by
  have hvalid : isValid shifted = true :=
    Bool.and_eq_true_iff.mpr ⟨by decide +kernel, by decide +kernel⟩
  refine ⟨hvalid, ?_⟩
  rcases encode_of_isValid hvalid with ⟨record, hrecord, hwritten | hrefused⟩ | hmalformed
  · obtain ⟨once, honce, hagain⟩ := hwritten
    exact ⟨record, once, hrecord, honce, hagain⟩
  · obtain ⟨cause, hcause, -⟩ := hrefused
    cases hrecord.symm.trans decode_shifted
    cases hcause.symm.trans (encode_shifted .trivial)
  · obtain ⟨cause, _, _, _, hcause, -⟩ := hmalformed
    cases hcause.symm.trans decode_shifted

/-- The bytes of a class file with an empty name, the class `java/lang/Object` above
    it and nothing else. -/
def nameless : Bytes :=
  [0xCA, 0xFE, 0xBA, 0xBE, 0, 0, 0, 52, 0, 5, 1, 0, 0, 7, 0, 1, 1, 0, 16, 0x6A, 0x61, 0x76, 0x61,
    0x2F, 0x6C, 0x61, 0x6E, 0x67, 0x2F, 0x4F, 0x62, 0x6A, 0x65, 0x63, 0x74, 7, 0, 3, 0, 0x21, 0, 2,
    0, 4, 0, 0, 0, 0, 0, 0, 0, 0]

/-- The reader takes an empty name, the writer does not. -/
theorem nameless_refused : isValid nameless = true ∧
    ¬ ∃ record, decode nameless {} = .ok record ∧
      ∃ once, encode record {} .trivial = .ok once ∧ ∃ again, decode once {} = .ok again := by
  obtain ⟨read, hread, hrefused⟩ := Result.exists_ok (x := decode nameless {})
    (p := fun record => (encode record {} .trivial).isOk = false) (by decide +kernel)
  refine ⟨Bool.and_eq_true_iff.mpr ⟨by decide +kernel, by decide +kernel⟩, ?_⟩
  rintro ⟨record, hrecord, once, honce, -⟩
  cases hread.symm.trans hrecord
  rw [honce] at hrefused
  exact absurd hrefused.symm Bool.false_ne_true

end JvmClass.ClassFile
