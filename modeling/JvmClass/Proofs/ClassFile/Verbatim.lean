/-
  Attributes that are kept byte for byte, in a class file that is read and
  written again.

  * `ClassRecord.verbatim` lists them, `linkageOf` has the tables that the
    indices in a class file refer to;
  * `verbatim_of_encode`: their bytes stay as they are while the tables are
    made anew, of what the class mentions besides them.  An index in them stands
    for what it stood for where the old tables begin with what is mentioned
    first, and everywhere in a file that was written before;
  * in `shifted` an index stands for another text afterwards
    (`textAt_shifted`).
-/
import JvmClass.Proofs.ClassFile.Framed
import JvmClass.Proofs.ClassFile.Reencode
import JvmClass.Proofs.ClassFile.Writable
import JvmClass.Proofs.Linkage.Begins

namespace JvmClass

/-- The attribute, if it is kept byte for byte. -/
def Attribute.raw? : Attribute → Option RawAttribute
  | .raw attr => some attr
  | _ => none

/-- The attributes of a class and its parts that are kept byte for byte, in
    their order. -/
structure Verbatim where
  ofClass : List RawAttribute
  ofFields : List (List RawAttribute)
  ofMethods : List (List RawAttribute)
  ofBodies : List (Option (List RawAttribute))
  deriving DecidableEq

def ClassRecord.verbatim (record : ClassRecord) : Verbatim where
  ofClass := record.attributes.filterMap Attribute.raw?
  ofFields := record.fields.map fun field => field.attributes.filterMap Attribute.raw?
  ofMethods := record.methods.map fun method => method.attributes.filterMap Attribute.raw?
  ofBodies := record.methods.map fun method => method.code.map Code.attributes

theorem ClassRecord.verbatim_mapCode {f : MethodRecord → Code → Code}
    (hf : ∀ method code, (f method code).attributes = code.attributes) (record : ClassRecord) :
    (record.mapCode f).verbatim = record.verbatim := by
  simp only [verbatim, mapCode, MethodRecord.mapCode, FieldRecord.normalize, List.map_map,
    Function.comp_def, Option.map_map, hf]

theorem ClassRecord.verbatim_normalize (record : ClassRecord) :
    record.normalize.verbatim = record.verbatim :=
  @verbatim_mapCode (Code.normalize record.name) (fun _ _ => rfl) record

namespace ClassFile

open Reader

/-- The constant pool and the bootstrap methods of a class file. -/
def linkageOf (bytes : Bytes) : Except Malformed Linkage :=
  Prod.fst <$> (do
    let header ← readHeader
    return ⟨header.pool, ← findBootstraps header.pool⟩ : Reader Linkage).runOn bytes

theorem linkageOf_of_decode {bytes : Bytes} {options : DecodeOptions} {record : ClassRecord}
    (h : decode bytes options = .ok record) : ∃ linkage, linkageOf bytes = .ok linkage := by
  obtain ⟨header, c, d, hheader, hbehind⟩ := decode_eq_ok.mp h
  obtain ⟨bootstraps, e, hbootstraps, -⟩ := readBehind_eq_ok hbehind
  refine ⟨⟨header.pool, bootstraps⟩, Result.map_eq_ok.mpr ⟨(_, e), runOn_eq_ok.mpr ?_, rfl⟩⟩
  refine bind_eq_ok.mpr ⟨header, c, runOn_eq_ok.mp hheader, ?_⟩
  exact bind_eq_ok.mpr ⟨bootstraps, e, hbootstraps, rfl⟩

/-- The tables of a file that was written are those of the linker that wrote
    it. -/
theorem linkageOf_of_encode {bytes : Bytes} {record : ClassRecord} {hierarchy : Hierarchy}
    (hreadable : record.Readable) (h : encode record {} hierarchy = .ok bytes) :
    ∃ body linker, writePlain record .empty = .ok body linker ∧
      linkageOf bytes = .ok linker.toLinkage := by
  obtain ⟨head, body, linker, rfl, hrun, hheader, -, hbootstraps⟩ :=
    file_of_encode hreadable (fun method _ code _ => code.readAs_normalize record.name method) h
  rw [Body.write_plain hierarchy .trivial] at hrun
  refine ⟨body, linker, hrun, ?_⟩
  have hread : ReadsAt [] [] (do
      let header ← readHeader
      return ⟨header.pool, ← findBootstraps header.pool⟩ : Reader Linkage) (head ++ body)
      linker.toLinkage := by
    exact (hheader [] _).bind ((hbootstraps _ _).map (g := Linkage.mk linker.toLinkage.pool))
  rw [linkageOf, runOn_of_reads hread]
  rfl

/-- **The tables of a file that is written again** are made of what its record
    mentions, in that order, whatever the old ones were. -/
theorem enterAll_of_encode {bytes once : Bytes} {record : ClassRecord} {hierarchy : Hierarchy}
    (hdecode : decode bytes {} = .ok record) (hencode : encode record {} hierarchy = .ok once) :
    ∃ linker, Linking.enterAll record.mentions .empty = .ok () linker ∧
      linkageOf once = .ok linker.toLinkage := by
  obtain ⟨linked, hsound, hroom⟩ := sound_of_decode hdecode
  obtain ⟨body, linker, hrun, htables⟩ := linkageOf_of_encode hsound.readable hencode
  obtain ⟨hok, -⟩ := enters_writePlain hsound hroom (compressed_of_decode hdecode) .empty
    (Linker.tidy_empty linked)
  obtain ⟨-, -, henter⟩ := hok body linker hrun
  exact ⟨linker, henter, htables⟩

/-- **What is kept byte for byte is written as it was read**, at every level of
    a class, while the tables are made of what its record mentions.  An index in
    it stands for the same as before where the old tables begin with those of what
    is mentioned first, and a file that was written from a readable record does
    not change at all. -/
theorem verbatim_of_encode {bytes once : Bytes} {record : ClassRecord} {hierarchy : Hierarchy}
    (hdecode : decode bytes {} = .ok record) (hencode : encode record {} hierarchy = .ok once) :
    ∃ again before after, decode once {} = .ok again ∧ again.verbatim = record.verbatim ∧
      linkageOf bytes = .ok before ∧ linkageOf once = .ok after.toLinkage ∧
      Linking.enterAll record.mentions .empty = .ok () after ∧
      (∀ front tables, front <+: record.mentions →
        Linking.enterAll front .empty = .ok () tables → tables.toLinkage.Begins before →
        ∀ index referent, tables.toLinkage.referent index = .ok referent →
          before.referent index = .ok referent ∧ after.toLinkage.referent index = .ok referent) ∧
      ∀ origin options other, origin.Readable → encode origin options other = .ok bytes →
        once = bytes := by
  obtain ⟨linked, hsound, -⟩ := sound_of_decode hdecode
  have hagain := decode_encode hsound.readable hencode
  obtain ⟨before, hbefore⟩ := linkageOf_of_decode hdecode
  obtain ⟨after, henter, hafter⟩ := enterAll_of_encode hdecode hencode
  refine ⟨_, before, after, hagain, record.verbatim_normalize, hbefore, hafter, henter, ?_, ?_⟩
  · intro front tables hfront htables hold index referent hreferent
    have hnew := Linkage.begins_of_enterAll hfront htables henter
    exact ⟨Linkage.referent_of_begins hold hreferent, Linkage.referent_of_begins hnew hreferent⟩
  · intro origin options other hreadable horigin
    obtain ⟨again, hread, hwritten⟩ := encode_of_readable hreadable horigin
    cases hdecode.symm.trans hread
    exact Except.ok.inj (hencode.symm.trans (hwritten hierarchy))

/-! ## An index that moves -/

/-- A class file with an attribute that is kept byte for byte: a record with one
    component, whose name is entry 5 and whose descriptor is entry 6.  Entry 7
    is the name of the attribute. -/
def shifted : Bytes :=
  [0xCA, 0xFE, 0xBA, 0xBE, 0, 0, 0, 52, 0, 8, 1, 0, 1, 0x41, 7, 0, 1, 1, 0, 16, 0x6A, 0x61, 0x76,
    0x61, 0x2F, 0x6C, 0x61, 0x6E, 0x67, 0x2F, 0x4F, 0x62, 0x6A, 0x65, 0x63, 0x74, 7, 0, 3, 1, 0, 1,
    0x78, 1, 0, 1, 0x49, 1, 0, 6, 0x52, 0x65, 0x63, 0x6F, 0x72, 0x64, 0, 0x21, 0, 2, 0, 4, 0, 0, 0,
    0, 0, 0, 0, 1, 0, 7, 0, 0, 0, 8, 0, 1, 0, 5, 0, 6, 0, 0]

/-- The record of the class file. -/
def shiftedRecord : ClassRecord :=
  { ClassRecord.ofName "A" with attributes := [.raw ⟨"Record", [0, 1, 0, 5, 0, 6, 0, 0]⟩] }

/-- Whether a class file is read as that record. -/
def isShifted (bytes : Bytes) : Bool :=
  match decode bytes {} with
  | .ok ⟨0, 52, ⟨0x0021⟩, "A", some "java/lang/Object", [], [], [], none, none,
      ⟨none, none, none, none⟩, [.raw ⟨"Record", [0, 1, 0, 5, 0, 6, 0, 0]⟩]⟩ => true
  | _ => false

theorem decode_of_isShifted {bytes : Bytes} (h : isShifted bytes = true) :
    decode bytes {} = .ok shiftedRecord := by
  unfold isShifted at h
  split at h
  next heq => exact heq
  next => cases h

theorem decode_shifted : decode shifted {} = .ok shiftedRecord :=
  decode_of_isShifted (by decide +kernel)

/-- The entries that are added for the class: the name and the descriptor of the
    component are not among them. -/
def shiftedEntries : List Pool.Entry :=
  [.reserved, .utf8 "A", .classRef 1, .utf8 "java/lang/Object", .classRef 3, .utf8 "Record"]

/-- The class file with a new pool. -/
def rewritten : Bytes :=
  [0xCA, 0xFE, 0xBA, 0xBE, 0, 0, 0, 52, 0, 6, 1, 0, 1, 0x41, 7, 0, 1, 1, 0, 16, 0x6A, 0x61, 0x76,
    0x61, 0x2F, 0x6C, 0x61, 0x6E, 0x67, 0x2F, 0x4F, 0x62, 0x6A, 0x65, 0x63, 0x74, 7, 0, 3, 1, 0, 6,
    0x52, 0x65, 0x63, 0x6F, 0x72, 0x64, 0, 0x21, 0, 2, 0, 4, 0, 0, 0, 0, 0, 0, 0, 1, 0, 5, 0, 0, 0,
    8, 0, 1, 0, 5, 0, 6, 0, 0]

theorem writeClass_shifted (hierarchy : Hierarchy) :
    match writeClass (Body.write {} hierarchy "A" 52) shiftedRecord .empty with
    | .ok body linker => linker.pool.entries = shiftedEntries.toArray ∧ body = rewritten.drop 48
    | .error _ _ => False := by
  have hget (linker : Linker) : (get : Linking Linker) linker = .ok linker linker := rfl
  -- The entries are added one by one; none of them is there yet.
  simp [shiftedRecord, shiftedEntries, ClassRecord.ofName, objectClass, defaultMajorVersion,
    writeClass, writeShared, writeBootstraps, Attribute.write, Attribute.writeContent,
    Attribute.name, Attribute.writeAnnotations, Annotations.absent, AttributeTable.optional,
    AttributeTable.attr, AttributeTable.write, Linking.count, Linking.each, Linking.eachRev,
    Pool.Intern.classRef?, Pool.Intern.classRef, Pool.Intern.utf8, Pool.add_mk, Pool.Entry.slots,
    Pool.Entry.isWide, Pool.Builder.maxSlots, Pool.Builder.empty, Linker.empty, liftM, monadLift,
    MonadLift.monadLift, Linking.ofInterning, Linking.ofExcept, Bind.bind, EStateM.bind,
    Except.bind, Pure.pure, EStateM.pure, Except.pure, Functor.map, hget]
  decide

theorem encode_shifted (hierarchy : Hierarchy) :
    encode shiftedRecord {} hierarchy = .ok rewritten := by
  have hwrite := writeClass_shifted hierarchy
  split at hwrite
  next body linker hrun =>
    obtain ⟨hentries, rfl⟩ := hwrite
    have hpool : linker.pool.write = .ok ((rewritten.drop 8).take 40) := by
      rw [Pool.Builder.write, Pool.Builder.size, hentries]
      rfl
    exact encode_eq_ok.mpr ⟨_, linker, _, rfl, hrun, hpool, rfl⟩
  next => exact hwrite.elim

/-- What the class mentions first: its name and that of the class above it. -/
def shiftedFront : List Mention := [.type "A", .type objectClass]

theorem begins_shifted : ∃ tables before, Linking.enterAll shiftedFront .empty = .ok () tables ∧
    linkageOf shifted = .ok before ∧ tables.toLinkage.Begins before ∧
    tables.toLinkage.referent 4 = .ok (.constant (.classRef objectClass)) := by
  obtain ⟨tables, henter, htables⟩ : ∃ tables,
      Linking.enterAll shiftedFront .empty = .ok () tables ∧
        tables.toLinkage = ⟨⟨(shiftedEntries.take 5).toArray⟩, #[]⟩ := by
    simp [shiftedFront, shiftedEntries, objectClass, Linking.enterAll, Mention.enter,
      Pool.Request.index, Pool.Intern.classRef, Pool.Intern.utf8, Pool.add_mk, Pool.Entry.slots,
      Pool.Entry.isWide, Pool.Builder.maxSlots, Pool.Builder.empty, Pool.Builder.toPool,
      Linker.empty, Linker.toLinkage, liftM, monadLift, MonadLift.monadLift, Linking.ofInterning,
      Bind.bind, EStateM.bind, Pure.pure, EStateM.pure]
  obtain ⟨before, hlinkage, hinitial⟩ := Result.exists_ok (x := linkageOf shifted)
    (p := fun before => shiftedEntries.take 5 <+: before.pool.entries.toList) (by decide +kernel)
  refine ⟨tables, before, henter, hlinkage, ?_, ?_⟩
  · rw [htables]
    exact ⟨hinitial, List.nil_prefix⟩
  · rw [htables]
    rfl

/-- What is kept of the class is written as it was read, an index that is among
    the first ones stands for the same class, and the new file does not change any
    more. -/
theorem verbatim_of_encode_shifted :
    (∃ again before after, decode rewritten {} = .ok again ∧
      again.verbatim = shiftedRecord.verbatim ∧ linkageOf shifted = .ok before ∧
      linkageOf rewritten = .ok after ∧
      before.referent 4 = .ok (.constant (.classRef objectClass)) ∧
      after.referent 4 = .ok (.constant (.classRef objectClass))) ∧
    ∀ hierarchy once, encode shiftedRecord {} hierarchy = .ok once → once = rewritten := by
  constructor
  · obtain ⟨again, before, after, hagain, hverbatim, hbefore, hafter, -, hindices, -⟩ :=
      verbatim_of_encode decode_shifted (encode_shifted .trivial)
    obtain ⟨tables, linkage, htables, hlinkage, hbegins, hreferent⟩ := begins_shifted
    cases hbefore.symm.trans hlinkage
    obtain ⟨hold, hnew⟩ := hindices shiftedFront tables ⟨_, rfl⟩ htables hbegins 4 _ hreferent
    exact ⟨again, before, after.toLinkage, hagain, hverbatim, hbefore, hafter, hold, hnew⟩
  · intro hierarchy once honce
    have hdecode : decode rewritten {} = .ok shiftedRecord :=
      decode_of_isShifted (by decide +kernel)
    obtain ⟨linked, hsound, -⟩ := sound_of_decode decode_shifted
    obtain ⟨_, _, _, -, -, -, -, -, -, hwritten⟩ := verbatim_of_encode hdecode honce
    exact hwritten shiftedRecord {} .trivial hsound.readable (encode_shifted .trivial)

/-- The text that an index in a class file stands for, if it is one. -/
def textAt (bytes : Bytes) (index : Pool.Index) : Option String :=
  match linkageOf bytes >>= fun linkage => linkage.referent index with
  | .ok (.text text) => some text
  | _ => none

/-- **An index that is kept byte for byte may stand for something else
    afterwards**, or for nothing: the name of the component becomes that of the
    attribute, and its descriptor is lost. -/
theorem textAt_shifted : decode shifted {} = .ok shiftedRecord ∧
    encode shiftedRecord {} .trivial = .ok rewritten ∧
    shiftedRecord.verbatim.ofClass = [⟨"Record", [0, 1, 0, 5, 0, 6, 0, 0]⟩] ∧
    textAt shifted 5 = some "x" ∧ textAt rewritten 5 = some "Record" ∧
    textAt shifted 6 = some "I" ∧ textAt rewritten 6 = none :=
  ⟨decode_shifted, encode_shifted .trivial, rfl, by decide +kernel, by decide +kernel,
    by decide +kernel, by decide +kernel⟩

end ClassFile

end JvmClass
