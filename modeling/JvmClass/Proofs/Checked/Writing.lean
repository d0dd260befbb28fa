/-
  Writing class files without an index out of range.

  * `Checked.prepare` analyses a body with checked steps; an index out of range
    is not hidden by writing the body as it is;
  * `Checked.writeBody` and `Checked.encode` write with checked steps throughout,
    and fail for a given cause where one stops;
  * `Checked.encode_eq`: whatever the record, none does;
  * `total_and_inRange` says of reading and writing together that neither uses an
    index out of range.
-/
import JvmClass.ClassFile.Writing
import JvmClass.Proofs.Body.Prepare
import JvmClass.Proofs.Checked.Analysis
import JvmClass.Proofs.Checked.Bytecode
import JvmClass.Proofs.Checked.Reading

namespace JvmClass

namespace Checked

open Bytes Linking Body

/-! ## Bodies -/

/-- The body that `options` ask for in place of `code`; none if its analysis
    stops at an index out of range. -/
def prepare (options : EncodeOptions) (hierarchy : Hierarchy) (owner : String)
    (majorVersion : UInt16) (method : MethodRecord) (code : Code) : Option Code :=
  if options.computeMaxs || options.computeFrames then
    match (analyze hierarchy owner method code
        (options.computeFrames && framesVersion ≤ majorVersion)).run with
    | none => none
    | some (.error _) => some code
    | some (.ok analysis) => some
      { code with
        maxStack := analysis.maxStack
        maxLocals := analysis.maxLocals
        instructions := analysis.instructions
        exceptionTable := analysis.exceptionTable
        frames := match analysis.frames with
          | some [] => none
          | some frames => some (.expanded frames)
          | none => if options.computeFrames then none else code.frames }
  else some code

variable (fault : Invalid)

/-- Write the content of the `Code` attribute for a body whose labels were
    checked. -/
def writePrepared (owner : String) (method : MethodRecord) (code : Code) : Linking Bytes := do
  let frames ← orThrow fault (deltaFrames owner method code.frames)
  let (bytecode, layout) ← inMethod method (encodeBytecode fault code.instructions)
  let handlerCount ← count code.exceptionTable.length "exception handlers"
  let handlers ← each (writeHandler layout) code.exceptionTable
  let lineNumbers ← AttributeTable.optional AttributeName.lineNumberTable
    (writeLineNumbers layout) code.lineNumbers
  let localVariables ← AttributeTable.optional AttributeName.localVariableTable
    (writeVariables layout) code.localVariables
  let variableTypes ← AttributeTable.optional AttributeName.localVariableTypeTable
    (writeVariables layout) code.localVariableTypes
  let stackMap ← AttributeTable.optional AttributeName.stackMapTable
    (fun frames => inMethod method (writeStackMap fault layout frames)) frames
  let visible ← AttributeTable.optional AttributeName.visibleTypeAnnotations
    (Annotations.writeTypeList (some layout)) code.visibleTypeAnnotations
  let invisible ← AttributeTable.optional AttributeName.invisibleTypeAnnotations
    (Annotations.writeTypeList (some layout)) code.invisibleTypeAnnotations
  let others ← each (fun attr => AttributeTable.attr attr.name attr.info) code.attributes
  let table ← AttributeTable.write
    (lineNumbers ++ localVariables ++ variableTypes ++ stackMap ++ visible ++ invisible ++ others)
  return u2 code.maxStack ++ u2 code.maxLocals ++ u4 (UInt32.ofNat bytecode.length) ++
    bytecode ++ u2 handlerCount ++ handlers.flatten ++ table

/-- Write the content of the `Code` attribute of `method`, with what the
    options ask for. -/
def writeBody (options : EncodeOptions) (hierarchy : Hierarchy) (owner : String)
    (majorVersion : UInt16) (method : MethodRecord) (code : Code) : Linking Bytes := do
  inMethod method (checkLabels code)
  match prepare options hierarchy owner majorVersion method code with
  | some prepared => writePrepared fault owner method prepared
  | none => throw fault

theorem prepare_eq {code : Code} (hinside : LabelsInside code) (options : EncodeOptions)
    (hierarchy : Hierarchy) (owner : String) (majorVersion : UInt16) (method : MethodRecord) :
    prepare options hierarchy owner majorVersion method code =
      some (Body.prepare options hierarchy owner majorVersion method code) := by
  unfold prepare Body.prepare
  rw [analyze_eq (Flow.labelsInRange_of_labelsInside hinside)]
  split
  next =>
    cases JvmClass.analyze hierarchy owner method code
      (options.computeFrames && framesVersion ≤ majorVersion) <;> rfl
  next => rfl

theorem writePrepared_eq (owner : String) (method : MethodRecord) {code : Code}
    (hinside : LabelsInside code) :
    writePrepared fault owner method code = Body.writePrepared owner method code := by
  unfold writePrepared Body.writePrepared
  rw [deltaFrames_eq, encodeBytecode_eq fault hinside.targets]
  funext s
  refine bind_congr fun frames t _ => bind_congr fun ⟨bytecode, layout⟩ u hencode => ?_
  have hsize := size_pos_of_encode (inMethod_eq_ok.mp hencode)
  simp only [writeStackMap_eq fault hsize]

/-- **A body is written without an index out of range**, whatever its labels. -/
theorem writeBody_eq (options : EncodeOptions) (hierarchy : Hierarchy) (owner : String)
    (majorVersion : UInt16) (method : MethodRecord) (code : Code) :
    writeBody fault options hierarchy owner majorVersion method code =
      Body.write options hierarchy owner majorVersion method code := by
  funext s
  refine bind_congr fun _ t hchecked => ?_
  have hinside := checkLabels_eq_ok.mp (liftM_eq_ok.mp (inMethod_eq_ok.mp hchecked)).1
  rw [prepare_eq hinside]
  exact congrFun (writePrepared_eq fault owner method (labelsInside_prepare hinside)) t

/-! ## Classes -/

/-- The class file of a record, with what the options ask for. -/
def encode (record : ClassRecord) (options : EncodeOptions) (hierarchy : Hierarchy) :
    Except Invalid Bytes :=
  if record.name.isEmpty then throw .noClassName
  else
    let writeBody := writeBody fault options hierarchy record.name record.majorVersion
    match ClassFile.writeClass writeBody record .empty with
    | .error cause _ => throw cause
    | .ok body linker => do
      let pool ← linker.pool.write
      return u4 ClassFile.magic ++ u2 record.minorVersion ++ u2 record.majorVersion ++ pool ++ body

/-- **A record is written without an index out of range**, whatever it holds. -/
theorem encode_eq (record : ClassRecord) (options : EncodeOptions) (hierarchy : Hierarchy) :
    encode fault record options hierarchy = ClassFile.encode record options hierarchy := by
  have hbody : writeBody fault options hierarchy record.name record.majorVersion =
      Body.write options hierarchy record.name record.majorVersion := by
    funext method code
    exact writeBody_eq fault options hierarchy record.name record.majorVersion method code
  unfold encode
  rw [hbody]
  rfl

end Checked

namespace ClassFile

/-- **Reading and writing use no index out of range**, whatever the bytes or the
    record.  With every index looked out for, bytes, texts and descriptors are read
    as they are without, labels are found for the same instructions, and a record
    is written to the same bytes or refused for the same cause.  So both give a
    result for every input or fail, each for causes of its own kind. -/
theorem total_and_inRange :
    (∀ (bytes : Bytes) (options : DecodeOptions),
      (∃ record, decode bytes options = .ok record) ∨
        ∃ cause : Malformed, decode bytes options = .error cause) ∧
    (∀ (record : ClassRecord) (options : EncodeOptions) (hierarchy : Hierarchy),
      (∃ bytes, encode record options hierarchy = .ok bytes) ∨
        ∃ cause : Invalid, encode record options hierarchy = .error cause) ∧
    (∀ (k : Nat) (c : Cursor), Checked.take k c = some (Reader.take k c)) ∧
    (∀ bytes, Checked.unitsFrom bytes 0 [] = some (ModifiedUtf8.unitsRev [] bytes)) ∧
    (∀ letters, Checked.parse letters = Checked.ofExcept (FieldType.parse letters)) ∧
    (∀ linkage code,
      Checked.decodeBytecode linkage code = Checked.ofExcept (Bytecode.decode linkage code)) ∧
    ∀ (fault : Invalid) (record : ClassRecord) (options : EncodeOptions) (hierarchy : Hierarchy),
      Checked.encode fault record options hierarchy = encode record options hierarchy := by
  refine ⟨fun bytes options => ?_, fun record options hierarchy => ?_, Checked.take_eq,
    fun bytes => Checked.unitsFrom_eq bytes 0 [], Checked.parse_eq, Checked.decodeBytecode_eq,
    Checked.encode_eq⟩
  · cases decode bytes options with
    | ok record => exact .inl ⟨record, rfl⟩
    | error cause => exact .inr ⟨cause, rfl⟩
  · cases encode record options hierarchy with
    | ok bytes => exact .inl ⟨bytes, rfl⟩
    | error cause => exact .inr ⟨cause, rfl⟩

end ClassFile

end JvmClass
