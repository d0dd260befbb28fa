/-
  Class files that were written once are written again alike.

  * `encode_mapCode`: a class whose bodies are written as those of another one
    is written as that one, among them one with its instructions as they are
    read (`encode_tidy`);
  * `ClassRecord.prepare` has the bodies that options ask for in place of
    those of a class; `encode_prepare` and `encode_normalize`: it is written
    as the class is, and so is the normal form;
  * `encode_of_decode_encode`: decoding and encoding reach a fixed point after
    one step, and what was encoded always decodes.
-/
import JvmClass.Proofs.Body.Prepare
import JvmClass.Proofs.ClassFile.Walk
import JvmClass.Proofs.ClassFile.RoundTrip
import JvmClass.Proofs.ClassFile.WellFormed
import JvmClass.Proofs.Linkage.Refines
import JvmClass.Tool.Script

namespace JvmClass

namespace ClassFile

/-! ## Members -/

theorem writeField_normalize (owner : String) (field : FieldRecord) :
    writeField owner field.normalize = writeField owner field := by
  obtain ⟨access, name, descriptor, value, annotations, attributes⟩ := field
  cases value with
  | none => rfl
  | some value =>
    simp only [FieldRecord.normalize, Option.map_some, writeField, AttributeTable.optional,
      Linking.constant_normalize]

variable {write other : MethodRecord → Code → Linking Bytes} {f : MethodRecord → Code → Code}

theorem refines_writeMethod (owner : String) {method : MethodRecord}
    (h : ∀ code ∈ method.code,
      Refines (write method code) (other (method.mapCode f) (f method code))) :
    Refines (writeMethod write owner method) (writeMethod other owner (method.mapCode f)) := by
  refine .guard (.bind (.refl _) fun name => .bind (.refl _) fun descriptor => ?_)
  refine .bind (.optional AttributeName.code h) fun code => ?_
  exact .refl _

theorem refines_writeClass {record : ClassRecord}
    (h : ∀ method ∈ record.methods, ∀ code ∈ method.code,
      Refines (write method code) (other (method.mapCode f) (f method code))) :
    Refines (writeClass write record) (writeClass other (record.mapCode f)) := by
  refine .bind (.refl _) fun name => .bind (.refl _) fun superName => ?_
  refine .bind (.refl _) fun interfaceCount => .bind (.refl _) fun interfaces => ?_
  refine .bind (.of_eq ?_) fun fieldCount => .bind (.of_eq ?_) fun fields => ?_
  · simp only [ClassRecord.mapCode, List.length_map]
  · exact (Linking.each_map fun field _ => writeField_normalize record.name field).symm
  refine .bind (.of_eq ?_) fun methodCount => .bind (.each fun method hmethod => ?_) fun methods => ?_
  · simp only [ClassRecord.mapCode, List.length_map]
  · exact refines_writeMethod record.name (h method hmethod)
  exact .refl _

theorem encode_mapCode {record : ClassRecord} {options options' : EncodeOptions}
    {hierarchy hierarchy' : Hierarchy} {bytes : Bytes}
    (h : ∀ method ∈ record.methods, ∀ code ∈ method.code,
      Refines (Body.write options hierarchy record.name record.majorVersion method code)
        (Body.write options' hierarchy' record.name record.majorVersion (method.mapCode f)
          (f method code)))
    (hencode : encode record options hierarchy = .ok bytes) :
    encode (record.mapCode f) options' hierarchy' = .ok bytes := by
  obtain ⟨body, linker, pool, hname, hrun, hpool, rfl⟩ := encode_eq_ok.mp hencode
  exact encode_eq_ok.mpr ⟨body, linker, pool, hname, refines_writeClass h _ _ _ hrun, hpool, rfl⟩

end ClassFile

namespace Body

/-- What is written in place of a body is written again for what came in its
    place. -/
theorem refines_prepare (options : EncodeOptions) (hierarchy other : Hierarchy) (owner : String)
    (majorVersion : UInt16) (method : MethodRecord) (code : Code)
    (f : MethodRecord → Code → Code) :
    Refines (write options hierarchy owner majorVersion method code)
      (write {} other owner majorVersion (method.mapCode f)
        (prepare options hierarchy owner majorVersion method code)) := by
  intro s w t hwrite
  obtain ⟨hinside, hwrite⟩ := write_eq_ok.mp hwrite
  exact write_eq_ok.mpr ⟨labelsInside_prepare hinside, hwrite⟩

/-- What is written for a body is written again for its normal form. -/
theorem refines_normalize (hierarchy other : Hierarchy) (owner : String) (majorVersion : UInt16)
    (method : MethodRecord) (code : Code) (f : MethodRecord → Code → Code) :
    Refines (write {} hierarchy owner majorVersion method code)
      (write {} other owner majorVersion (method.mapCode f) (code.normalize owner method)) := by
  intro s w t hwrite
  obtain ⟨hinside, hwrite⟩ := write_eq_ok.mp hwrite
  refine write_eq_ok.mpr ⟨labelsInside_normalize hinside, ?_⟩
  have hwritten : writePrepared owner method (code.normalize owner method) s = .ok w t := by
    rw [writePrepared_normalize]
    exact hwrite
  exact hwritten

/-- What is written for a body is written again with its instructions as they
    are read. -/
theorem refines_tidy (hierarchy other : Hierarchy) (owner : String) (majorVersion : UInt16)
    (method : MethodRecord) (code : Code) (f : MethodRecord → Code → Code) :
    Refines (write {} hierarchy owner majorVersion method code)
      (write {} other owner majorVersion (method.mapCode f) code.tidy) := by
  intro s w t hwrite
  obtain ⟨hinside, hwrite⟩ := write_eq_ok.mp hwrite
  refine write_eq_ok.mpr ⟨labelsInside_tidy hinside, ?_⟩
  have hwritten : writePrepared owner method code.tidy s = .ok w t := by
    rw [writePrepared_tidy]
    exact hwrite
  exact hwritten

end Body

/-! ## Classes -/

/-- The class with the bodies that options ask for in place of its own. -/
def ClassRecord.prepare (options : EncodeOptions) (hierarchy : Hierarchy)
    (record : ClassRecord) : ClassRecord :=
  record.mapCode (Body.prepare options hierarchy record.name record.majorVersion)

theorem ClassRecord.Readable.prepare {record : ClassRecord} (h : record.Readable)
    (options : EncodeOptions) (hierarchy : Hierarchy) :
    (record.prepare options hierarchy).Readable where
  fields field hfield := by
    obtain ⟨field, hmem, rfl⟩ := List.mem_map.mp hfield
    have hreadable := h.fields field hmem
    refine ⟨fun value hvalue => ?_, hreadable.annotations, hreadable.stands, hreadable.nests⟩
    obtain ⟨before, hbefore, rfl⟩ := Option.map_eq_some_iff.mp hvalue
    rw [Constant.depth_normalize]
    exact hreadable.value before hbefore
  methods method hmethod := by
    obtain ⟨method, hmem, rfl⟩ := List.mem_map.mp hmethod
    have hreadable := h.methods method hmem
    exact ⟨hreadable.annotations, hreadable.stands, hreadable.nests⟩
  annotations := h.annotations
  stands := h.stands
  nests := h.nests
  bodies method hmethod code hcode := by
    obtain ⟨method, hmem, rfl⟩ := List.mem_map.mp hmethod
    obtain ⟨before, hbefore, rfl⟩ := Option.map_eq_some_iff.mp hcode
    exact Body.readable_prepare (h.bodies method hmem before hbefore)

namespace ClassFile

/-- What is written for a class is written again for what came in its place. -/
theorem encode_prepare {record : ClassRecord} {options : EncodeOptions}
    {hierarchy : Hierarchy} {bytes : Bytes} (h : encode record options hierarchy = .ok bytes)
    (other : Hierarchy) : encode (record.prepare options hierarchy) {} other = .ok bytes :=
  encode_mapCode (fun method _ code _ =>
    Body.refines_prepare options hierarchy other record.name record.majorVersion method code _) h

/-- What is written for a class is written again for its normal form. -/
theorem encode_normalize {record : ClassRecord} {hierarchy : Hierarchy} {bytes : Bytes}
    (h : encode record {} hierarchy = .ok bytes) (other : Hierarchy) :
    encode record.normalize {} other = .ok bytes :=
  encode_mapCode (fun method _ code _ =>
    Body.refines_normalize hierarchy other record.name record.majorVersion method code _) h

/-- What is written for a class is written again with its instructions as they
    are read. -/
theorem encode_tidy {record : ClassRecord} {hierarchy : Hierarchy} {bytes : Bytes}
    (h : encode record {} hierarchy = .ok bytes) (other : Hierarchy) :
    encode record.tidy {} other = .ok bytes :=
  encode_mapCode (fun method _ code _ =>
    Body.refines_tidy hierarchy other record.name record.majorVersion method code _) h

/-- What is written for a readable class is decoded, and written again for
    what is decoded. -/
theorem encode_of_readable {record : ClassRecord} {options : EncodeOptions}
    {hierarchy : Hierarchy} {bytes : Bytes} (hreadable : record.Readable)
    (h : encode record options hierarchy = .ok bytes) :
    ∃ again, decode bytes {} = .ok again ∧ ∀ other, encode again {} other = .ok bytes := by
  have hprepared := encode_prepare h hierarchy
  exact ⟨_, decode_encode (hreadable.prepare options hierarchy) hprepared,
    encode_normalize hprepared⟩

end ClassFile

namespace Tool

open ClassFile

theorem reencode_ne_unstable (decoding : DecodeOptions) (encoding : EncodeOptions)
    (hierarchy : Hierarchy) (input : Input) (name : String) :
    reencode decoding encoding hierarchy input ≠ .error (.unstable name) := by
  unfold reencode
  split
  next => exact nofun
  next record hdecode =>
    split
    next => exact nofun
    next once hencode =>
      obtain ⟨linked, hsound, -⟩ := sound_of_decode hdecode
      obtain ⟨again, hdecoded, -⟩ := encode_of_readable hsound.readable hencode
      rw [hdecoded]
      exact nofun

/-- **Decoding and encoding reach a fixed point after one step**, whatever was
    left out in reading and whatever was computed in writing; so what a class
    file was turned into never fails to decode. -/
theorem reencode_stable (decoding : DecodeOptions) (encoding : EncodeOptions)
    (hierarchy : Hierarchy) (bytes : Bytes) :
    (∀ record once, decode bytes decoding = .ok record → encode record encoding hierarchy = .ok once →
      ∃ again, decode once {} = .ok again ∧ encode again {} .trivial = .ok once) ∧
    ∀ places output name other session,
      .fail (.unstable other) ∉
        (roundtrip decoding encoding places output ⟨name, bytes⟩ session).1 := by
  constructor
  · intro record once hdecode hencode
    obtain ⟨linked, hsound, -⟩ := sound_of_decode hdecode
    obtain ⟨again, hdecoded, hencoded⟩ := encode_of_readable hsound.readable hencode
    exact ⟨again, hdecoded, hencoded .trivial⟩
  · intro places output name other session hfails
    have hstable := reencode_ne_unstable decoding encoding (session.hierarchy places) ⟨name, bytes⟩
      other
    unfold roundtrip at hfails
    dsimp only at hfails
    split at hfails
    next failure hfailure =>
      obtain ⟨rfl⟩ := Action.fail.inj (List.mem_singleton.mp hfails)
      exact hstable hfailure
    next => simp at hfails

/-- The class that switches, decoded and encoded once more. -/
theorem reencode_stable_switching : ∃ bytes,
    decode bytes {} = .ok switching ∧ encode switching {} .trivial = .ok bytes ∧
      ∃ again, decode bytes {} = .ok again ∧ encode again {} .trivial = .ok bytes := by
  obtain ⟨bytes, hencode⟩ := encode_switching .trivial
  have hdecode := decode_encode wellFormed_switching.toReadable hencode
  rw [wellFormed_switching.normalize_eq] at hdecode
  exact ⟨bytes, hdecode, hencode,
    (reencode_stable {} {} .trivial bytes).1 switching bytes hdecode hencode⟩

end Tool

end JvmClass
