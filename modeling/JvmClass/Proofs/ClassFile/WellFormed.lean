/-
  Records that are read as they were written.

  * `Code.Normal`: a body is its own normal form;
  * `ClassRecord.WellFormed` records are readable and normal;
    `decode_of_encode`: they are read as they were.
-/
import JvmClass.Proofs.Bytecode.Normal
import JvmClass.Proofs.ClassFile.RoundTrip

namespace JvmClass

/-- Changing nothing about the items of a list changes nothing about it. -/
theorem map_eq_self {α : Type} {f : α → α} {items : List α} (h : ∀ a ∈ items, f a = a) :
    items.map f = items :=
  (List.map_congr_left h).trans (List.map_id items)

theorem optionMap_eq_self {α : Type} {f : α → α} {item : Option α} (h : ∀ a ∈ item, f a = a) :
    item.map f = item := by
  cases item with
  | none => rfl
  | some a => exact congrArg some (h a rfl)

/-! ## Bodies -/

/-- The instructions of a body are normal and its frames, if it has any, are
    differences. -/
structure Code.Normal (code : Code) : Prop where
  instructions : ∀ i ∈ code.instructions, i.Normal
  frames : ∀ frames ∈ code.frames, ∃ deltas, frames = .compressed deltas

theorem Code.Normal.normalize_eq {code : Code} (h : code.Normal) (owner : String)
    (method : MethodRecord) : code.normalize owner method = code := by
  obtain ⟨maxStack, maxLocals, instructions, handlers, lines, locals, types, frames, attrs⟩ := code
  have hinstructions : instructions.map Instruction.normalize = instructions :=
    map_eq_self fun i hi => (h.instructions i hi).normalize_eq
  have hframes : Frames.normalize owner method frames = frames := by
    cases frames with
    | none => rfl
    | some frames =>
      obtain ⟨deltas, rfl⟩ := h.frames frames rfl
      rfl
  simp only [normalize, hinstructions, hframes]

/-! ## Classes -/

/-- A record that stands for a class file and nothing besides: what the reader
    can tell apart and follow, in the form in which it is read.  Type
    annotations that refer to instructions outside a body need no mention, the
    writer refuses them. -/
structure ClassRecord.WellFormed (record : ClassRecord) : Prop extends record.Readable where
  values : ∀ field ∈ record.fields, ∀ value ∈ field.value, ∀ h ∈ value.handles, h.Plain
  normal : ∀ method ∈ record.methods, ∀ code ∈ method.code, code.Normal

theorem ClassRecord.WellFormed.normalize_eq {record : ClassRecord} (h : record.WellFormed) :
    record.normalize = record := by
  have hfields : record.fields.map FieldRecord.normalize = record.fields :=
    map_eq_self fun field hfield => by
      rw [FieldRecord.normalize, optionMap_eq_self fun value hvalue =>
        value.normalize_eq_self (h.values field hfield value hvalue)]
  have hmethods : record.methods.map (MethodRecord.mapCode (Code.normalize record.name)) =
      record.methods :=
    map_eq_self fun method hmethod => by
      rw [MethodRecord.mapCode, optionMap_eq_self fun code hcode =>
        (h.normal method hmethod code hcode).normalize_eq record.name method]
  rw [normalize, mapCode, hfields, hmethods]

namespace ClassFile

/-- **A well-formed record is read as it was written.** -/
theorem decode_of_encode {record : ClassRecord} (hwell : record.WellFormed)
    {hierarchy : Hierarchy} {bytes : Bytes} (h : encode record {} hierarchy = .ok bytes) :
    decode bytes {} = .ok record := by
  rw [decode_encode hwell.toReadable h, hwell.normalize_eq]

/-! ## A class that switches -/

/-- A body with a `lookupswitch` that jumps backwards. -/
def switchingBody : Code where
  maxStack := 1
  maxLocals := 0
  instructions := [.simple 0x03, .lookupSwitch 2 [(-1, 2), (7, 0)], .simple Opcode.returnVoid]
  exceptionTable := []
  lineNumbers := none
  localVariables := none
  localVariableTypes := none
  frames := none
  visibleTypeAnnotations := none
  invisibleTypeAnnotations := none
  attributes := []

/-- The bytecode of the body. -/
def switchingBytecode : Bytes :=
  [0x03, 0xab, 0, 0, 0, 0, 0, 27, 0, 0, 0, 2, 0xff, 0xff, 0xff, 0xff, 0, 0, 0, 27, 0, 0, 0, 7,
    0xff, 0xff, 0xff, 0xff, 0xb1]

/-- A class with that body. -/
def switching : ClassRecord :=
  { ClassRecord.ofName "A" with
    methods := [⟨⟨0x0009⟩, "m", "()V", [], some switchingBody, .absent, []⟩] }

theorem wellFormed_switching : switching.WellFormed := by
  have hannotations : Annotations.absent.Readable := ⟨nofun, nofun, nofun, nofun⟩
  have hreadable : switchingBody.Readable := by
    refine ⟨?_, nofun, nofun, nofun⟩
    simp [switchingBody, Instruction.Nests]
  have hnormal : switchingBody.Normal := by
    refine ⟨?_, nofun⟩
    simp only [switchingBody, List.forall_mem_cons, Instruction.Normal]
    exact ⟨trivial, by decide, trivial, nofun⟩
  refine { fields := nofun, methods := ?_, annotations := hannotations, stands := nofun
           nests := nofun, bodies := ?_, values := nofun, normal := ?_ }
  · simp only [switching, List.forall_mem_singleton]
    exact ⟨hannotations, nofun, nofun⟩
  · simp only [switching, List.forall_mem_singleton]
    rintro code ⟨⟩
    exact hreadable
  · simp only [switching, List.forall_mem_singleton]
    rintro code ⟨⟩
    exact hnormal

theorem encode_switchingBody (linker : Linker) :
    Bytecode.encode switchingBody.instructions linker =
      .ok (switchingBytecode, ⟨#[0, 1, 28, 29]⟩) linker := by
  have hsorted : Bytecode.sortPairs [(-1, 2), (7, 0)] = [(-1, 2), (7, 0)] :=
    List.mergeSort_of_pairwise (by decide)
  have hemit : Bytecode.emitFrom ⟨#[0, 1, 28, 29]⟩ [] 0
      (switchingBody.instructions.zip [0, 0, 0]) = .ok switchingBytecode := by
    simp only [switchingBody, List.zip, List.zipWith, Bytecode.emitFrom, Bytecode.emit,
      Bytecode.emitLookupSwitch, hsorted]
    rfl
  simp only [Bytecode.encode, Linking.bind_eq_ok]
  refine ⟨[0, 0, 0], linker, rfl, ⟨#[0, 1, 28, 29]⟩, linker, rfl, switchingBytecode, linker, ?_,
    rfl⟩
  rw [hemit]
  rfl

theorem write_switchingBody (hierarchy : Hierarchy) (method : MethodRecord) (linker : Linker) :
    Body.write {} hierarchy "A" 52 method switchingBody linker =
      .ok (Bytes.u2 1 ++ Bytes.u2 0 ++ Bytes.u4 29 ++ switchingBytecode ++ Bytes.u2 0 ++ Bytes.u2 0)
        linker := by
  have hlabels : Body.inMethod method (liftM (Body.checkLabels switchingBody)) linker =
      .ok () linker := rfl
  have hbytecode : Body.inMethod method (Bytecode.encode switchingBody.instructions) linker =
      .ok (switchingBytecode, ⟨#[0, 1, 28, 29]⟩) linker := by
    rw [Body.inMethod, encode_switchingBody]
  exact Linking.bind_eq_ok.mpr ⟨(), linker, hlabels, Linking.bind_eq_ok.mpr ⟨none, linker, rfl,
    Linking.bind_eq_ok.mpr ⟨_, linker, hbytecode, rfl⟩⟩⟩

/-- The entries that are added for the class. -/
def switchingEntries : List Pool.Entry :=
  [.reserved, .utf8 "A", .classRef 1, .utf8 "java/lang/Object", .classRef 3, .utf8 "m",
    .utf8 "()V", .utf8 "Code"]

theorem writeClass_switching (hierarchy : Hierarchy) :
    match writeClass (Body.write {} hierarchy "A" 52) switching .empty with
    | .ok _ linker => linker.pool.entries.toList = switchingEntries
    | .error _ _ => False := by
  obtain ⟨content, hlength, hcontent⟩ : ∃ content : Bytes, ¬ 0xFFFFFFFF < content.length ∧
      ∀ linker method, Body.write {} hierarchy "A" 52 method switchingBody linker =
        .ok content linker :=
    ⟨_, by decide, fun linker method => write_switchingBody hierarchy method linker⟩
  have hget (linker : Linker) : (get : Linking Linker) linker = .ok linker linker := rfl
  -- The entries are added one by one; none of them is there yet.
  simp [switching, ClassRecord.ofName, objectClass, defaultMajorVersion, switchingEntries,
    hcontent, hlength, writeClass, writeMethod, writeExceptions, writeShared, writeBootstraps,
    Attribute.writeAnnotations, Annotations.absent, AttributeTable.optional, AttributeTable.attr,
    AttributeTable.write, AttributeName.code, Linking.count, Linking.each, Linking.eachRev,
    Pool.Intern.classRef?, Pool.Intern.classRef, Pool.Intern.utf8, Pool.add_mk, Pool.Entry.slots,
    Pool.Entry.isWide, Pool.Builder.maxSlots, Pool.Builder.empty, Linker.empty, liftM, monadLift,
    MonadLift.monadLift, Linking.ofInterning, Linking.ofExcept, Bind.bind, EStateM.bind,
    Except.bind, Pure.pure, EStateM.pure, Except.pure, Functor.map, hget]

theorem encode_switching (hierarchy : Hierarchy) :
    ∃ bytes, encode switching {} hierarchy = .ok bytes := by
  have hwrite := writeClass_switching hierarchy
  split at hwrite
  next body linker hrun =>
    obtain ⟨pool, hpool⟩ : ∃ pool, linker.pool.write = .ok pool := by
      rw [Pool.Builder.write, hwrite]
      exact ⟨_, rfl⟩
    exact ⟨_, encode_eq_ok.mpr ⟨body, linker, pool, rfl, hrun, hpool, rfl⟩⟩
  next => exact hwrite.elim

/-- The class that switches is read as it was written. -/
theorem decode_of_encode_switching :
    switching.WellFormed ∧
      ∃ bytes, encode switching {} .trivial = .ok bytes ∧ decode bytes {} = .ok switching :=
  let ⟨bytes, h⟩ := encode_switching .trivial
  ⟨wellFormed_switching, bytes, h, decode_of_encode wellFormed_switching h⟩

end ClassFile

end JvmClass
