/-
  Class files survive writing.

  * `ClassRecord.Readable`: what the reader can tell apart and follow in a
    record; `ClassRecord.normalize` is the record that is read for it;
  * `file_of_encode`: what the parts of the file of a readable record are read as;
  * `decode_encode_as`: the file is read with bodies that are read for those of
    the record, and `decode_encode`: as its normal form.
-/
import JvmClass.Proofs.ClassFile.Class

namespace JvmClass

/-- A class that can be read again. -/
structure ClassRecord.Readable (record : ClassRecord) : Prop extends record.PartsReadable where
  bodies : ∀ method ∈ record.methods, ∀ code ∈ method.code, code.Readable

/-- The class that is read for a written one. -/
def ClassRecord.normalize (record : ClassRecord) : ClassRecord :=
  record.mapCode (Code.normalize record.name)

/-- The class with its constants and its instructions as they are read for
    written ones, and its frames as they are. -/
def ClassRecord.tidy (record : ClassRecord) : ClassRecord :=
  record.mapCode fun _ code => code.tidy

namespace ClassFile

open Reader

/-- A body whose labels were checked is read as one that is read for it. -/
theorem yields_writeBody {hierarchy : Hierarchy} {owner : String} {majorVersion : UInt16}
    {method : MethodRecord} {code : Code} (hreadable : code.Readable) :
    Yields (Body.write {} hierarchy owner majorVersion method code) fun linker w =>
      ∀ spelled reading other, reading.initial owner = method.initial owner →
        code.ReadAs spelled owner method other → ReadsAt [] []
          (Body.read linker.toLinkage { expandFrames := spelled } owner reading) w other := by
  refine (Body.yields_inMethod (Yields.ofExcept (Body.checkLabels code))).bindKnown ?_
  intro _ _ hchecked
  refine (Body.yields_writePrepared hreadable (Body.checkLabels_eq_ok.mp hchecked)).mono ?_
  exact fun _ _ _ h _ => h

theorem reads_header {builder : Pool.Builder} (hvalid : builder.Valid) {w : Bytes}
    (h : builder.write = .ok w) (minorVersion majorVersion : UInt16) :
    Reads readHeader (Bytes.u4 magic ++ (Bytes.u2 minorVersion ++ (Bytes.u2 majorVersion ++ w)))
      ⟨minorVersion, majorVersion, builder.toPool⟩ := by
  refine (reads_u4 magic).bind ?_
  rw [if_pos rfl]
  refine (reads_u2 minorVersion).bind ((reads_u2 majorVersion).bind ?_)
  have := (Pool.Builder.reads_write hvalid h).map (g := Header.mk minorVersion majorVersion)
  rwa [bind_assoc] at this

theorem encode_eq_ok {record : ClassRecord} {options : EncodeOptions} {hierarchy : Hierarchy}
    {bytes : Bytes} :
    encode record options hierarchy = .ok bytes ↔
      ∃ body linker pool, record.name.isEmpty = false ∧
        writeClass (Body.write options hierarchy record.name record.majorVersion) record .empty =
          .ok body linker ∧
        linker.pool.write = .ok pool ∧
        bytes = Bytes.u4 magic ++ Bytes.u2 record.minorVersion ++ Bytes.u2 record.majorVersion ++
          pool ++ body := by
  unfold encode
  dsimp only
  constructor
  · intro h
    split at h
    next => exact absurd h Result.throw_ne_ok
    next hname =>
      split at h
      next => exact absurd h Result.throw_ne_ok
      next body linker hrun =>
        obtain ⟨pool, hpool, h⟩ := Result.bind_eq_ok.mp h
        cases h
        exact ⟨body, linker, pool, by simpa using hname, hrun, hpool, rfl⟩
  · rintro ⟨body, linker, pool, hname, hrun, hpool, rfl⟩
    rw [if_neg (by simp [hname])]
    simp only [hrun, hpool]
    rfl

/-- The file of a readable record: the header and the pool are read as they are in
    the linker, the rest with bodies that are read for those of the record, and the
    bootstrap methods as the rows of the linker. -/
theorem file_of_encode {spelled : Bool} {normal : MethodRecord → Code → Code}
    {record : ClassRecord} {hierarchy : Hierarchy} {bytes : Bytes} (hreadable : record.Readable)
    (hnormal : ∀ method ∈ record.methods, ∀ code ∈ method.code,
      code.ReadAs spelled record.name method (normal method code))
    (h : encode record {} hierarchy = .ok bytes) :
    ∃ head body linker, bytes = head ++ body ∧
      writeClass (Body.write {} hierarchy record.name record.majorVersion) record .empty =
        .ok body linker ∧
      Reads readHeader head ⟨record.minorVersion, record.majorVersion, linker.toLinkage.pool⟩ ∧
      Reads (readClass linker.toLinkage { expandFrames := spelled } record.minorVersion
        record.majorVersion) body (record.mapCode normal) ∧
      Reads (findBootstraps linker.toLinkage.pool) body linker.rows := by
  obtain ⟨body, linker, pool, -, hrun, hpool, rfl⟩ := encode_eq_ok.mp h
  have hbody : ∀ method ∈ record.methods, ∀ code ∈ method.code,
      Yields (Body.write {} hierarchy record.name record.majorVersion method code) fun linker w =>
        ∀ reading, reading.initial record.name = method.initial record.name → ReadsAt [] []
          (Body.read linker.toLinkage { expandFrames := spelled } record.name reading) w
          (normal method code) := by
    intro method hmethod code hcode
    refine (yields_writeBody (hreadable.bodies method hmethod code hcode)).mono ?_
    exact fun _ _ _ hreads reading hreading =>
      hreads spelled reading _ hreading (hnormal method hmethod code hcode)
  obtain ⟨hvalid, -, hclass, hbootstraps⟩ := ends_writeClass spelled hreadable.toPartsReadable hbody
    .empty body linker Linker.valid_empty hrun
  refine ⟨Bytes.u4 magic ++ (Bytes.u2 record.minorVersion ++ (Bytes.u2 record.majorVersion ++ pool)),
    body, linker, by simp only [List.append_assoc], hrun, ?_, hclass, hbootstraps⟩
  exact reads_header hvalid.pool hpool record.minorVersion record.majorVersion

/-- **The file of a readable record is read with bodies that are read for its
    own**, frames spelled out or not. -/
theorem decode_encode_as {spelled : Bool} {normal : MethodRecord → Code → Code}
    {record : ClassRecord} {hierarchy : Hierarchy} {bytes : Bytes} (hreadable : record.Readable)
    (hnormal : ∀ method ∈ record.methods, ∀ code ∈ method.code,
      code.ReadAs spelled record.name method (normal method code))
    (h : encode record {} hierarchy = .ok bytes) :
    decode bytes { expandFrames := spelled } = .ok (record.mapCode normal) := by
  obtain ⟨head, body, linker, rfl, -, hheader, hclass, hbootstraps⟩ :=
    file_of_encode hreadable hnormal h
  have hread : ReadsAt [] [] (read { expandFrames := spelled }) (head ++ body)
      (record.mapCode normal) := by
    refine (hheader [] _).bind ((reads_position head (body ++ [])).bindNil ?_)
    refine (hbootstraps head []).rewind ((hclass head []).bindDone ?_)
    refine (reads_remaining (head ++ body) []).bindNil ?_
    rw [if_pos List.length_nil]
    exact ReadsAt.pure
  rw [decode, runOn_of_reads hread]
  rfl

/-- **The file of a readable record is read as its normal form.** -/
theorem decode_encode {record : ClassRecord} {hierarchy : Hierarchy} {bytes : Bytes}
    (hreadable : record.Readable) (h : encode record {} hierarchy = .ok bytes) :
    decode bytes {} = .ok record.normalize :=
  decode_encode_as hreadable (fun method _ code _ => code.readAs_normalize record.name method) h

end ClassFile

end JvmClass
