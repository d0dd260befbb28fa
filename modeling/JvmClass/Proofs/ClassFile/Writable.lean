/-
  Why classes that were read may be refused by the writer.

  * `ClassRecord.mentions`: what a class names, in the order in which it is
    entered in the tables of its class file;
  * `FieldRecord.Refused`, `MethodRecord.Refused` and `ClassRecord.Refused`:
    the reasons to refuse a record whose parts are sound: names that are empty,
    those of a body, texts that have become too long, a full pool and attributes
    that are too long;
  * `enters_writePlain` and `encode_or_refused`: a sound record is refused for no
    other reason.
-/
import JvmClass.Proofs.Body.Writable
import JvmClass.Proofs.ClassFile.Decoded

namespace JvmClass

/-! ## What is named -/

/-- What is named in the attributes that all places have in common. -/
def sharedMentions (annotations : Annotations) (attributes : List Attribute) : List Mention :=
  annotations.mentions ++ attributes.flatMap Attribute.mentions

/-- What a field names. -/
def FieldRecord.mentions (field : FieldRecord) : List Mention :=
  .text field.name :: .text field.descriptor ::
  (AttributeTable.mentions AttributeName.constantValue (fun value => [.constant value])
    field.value ++
  sharedMentions field.annotations field.attributes)

/-- The exceptions that a method declares, if there are any. -/
def MethodRecord.exceptions? (method : MethodRecord) : Option (List String) :=
  if method.exceptions.isEmpty then none else some method.exceptions

/-- What a method names. -/
def MethodRecord.mentions (method : MethodRecord) : List Mention :=
  .text method.name :: .text method.descriptor ::
  (AttributeTable.mentions AttributeName.code Code.mentions method.code ++
  (AttributeTable.mentions AttributeName.exceptions (·.map .type) method.exceptions? ++
  sharedMentions method.annotations method.attributes))

/-- What a class names, in the order in which it is entered in the tables of its
    class file. -/
def ClassRecord.mentions (record : ClassRecord) : List Mention :=
  .type record.name :: (Mention.type? record.superName ++
  (record.interfaces.map .type ++
  (record.fields.flatMap FieldRecord.mentions ++
  (record.methods.flatMap MethodRecord.mentions ++
  (AttributeTable.mentions AttributeName.sourceFile (fun file => [.text file])
    record.sourceFile ++
  (AttributeTable.mentions AttributeName.sourceDebugExtension (fun _ => [])
    record.sourceDebugExtension ++
  (sharedMentions record.annotations record.attributes ++ [.bootstraps])))))))

/-! ## Attributes -/

namespace ClassFile

/-- Write the content of the `Code` attribute of a method of the class `owner`,
    without computed sizes and frames. -/
def writeBody (owner : String) (majorVersion : UInt16) : MethodRecord → Code → Linking Bytes :=
  Body.write {} .trivial owner majorVersion

/-- The attributes that all places have in common. -/
def sharedParts (annotations : Annotations) (attributes : List Attribute) :
    List (String × Linking Bytes) :=
  annotations.parts ++ attributes.map Attribute.part

/-- The attributes of a field. -/
def fieldParts (field : FieldRecord) : List (String × Linking Bytes) :=
  AttributeTable.parts AttributeName.constantValue
    (fun value => Bytes.u2 <$> Linking.constant value) field.value ++
  sharedParts field.annotations field.attributes

/-- The attributes of a method. -/
def methodParts (owner : String) (majorVersion : UInt16) (method : MethodRecord) :
    List (String × Linking Bytes) :=
  AttributeTable.parts AttributeName.code (writeBody owner majorVersion method) method.code ++
  AttributeTable.parts AttributeName.exceptions Attribute.writeClassNames method.exceptions? ++
  sharedParts method.annotations method.attributes

/-- Write the content of the bootstrap method table. -/
def bootstrapsContent : Linking Bytes := do
  let rows := (← get).rows.toList
  let count ← Linking.count rows.length "bootstrap methods"
  let content ← Linking.ofExcept (rows.mapM writeBootstrapRow)
  return Bytes.u2 count ++ content.flatten

/-- The attributes of a class. -/
def classParts (record : ClassRecord) : List (String × Linking Bytes) :=
  AttributeTable.parts AttributeName.sourceFile
    (fun file => Bytes.u2 <$> (liftM (Pool.Intern.utf8 file) : Linking UInt16))
    record.sourceFile ++
  AttributeTable.parts AttributeName.sourceDebugExtension pure record.sourceDebugExtension ++
  sharedParts record.annotations record.attributes ++
  [(AttributeName.bootstrapMethods, bootstrapsContent)]

/-- The class after its pool, without computed sizes and frames. -/
def writePlain (record : ClassRecord) : Linking Bytes :=
  writeClass (writeBody record.name record.majorVersion) record

end ClassFile

/-! ## Reasons to refuse a class -/

open ClassFile

/-- Why a sound field of the class `owner` cannot be written. -/
inductive FieldRecord.Refused (owner : String) (field : FieldRecord) : Invalid → Halt → Prop
  | capacity {cause : Invalid} {halt : Halt} (h : cause.Capacity (fieldParts field) halt) :
    Refused owner field cause halt
  | unnamed {halt : Halt} (h : field.name.isEmpty) :
    Refused owner field (.noFieldName owner) halt

/-- Why a sound method of the class `owner` cannot be written. -/
inductive MethodRecord.Refused (owner : String) (majorVersion : UInt16) (method : MethodRecord) :
    Invalid → Halt → Prop
  | capacity {cause : Invalid} {halt : Halt}
    (h : cause.Capacity (methodParts owner majorVersion method) halt) :
    Refused owner majorVersion method cause halt
  | unnamed {halt : Halt} (h : method.name.isEmpty) :
    Refused owner majorVersion method (.noMethodName owner) halt
  | body {code : Code} {cause : Invalid} {halt : Halt} (hcode : method.code = some code)
    (h : code.Refused method cause halt) : Refused owner majorVersion method cause halt

/-- Why a sound class cannot be written after its pool. -/
inductive ClassRecord.PartRefused (record : ClassRecord) : Invalid → Halt → Prop
  | capacity {cause : Invalid} {halt : Halt} (h : cause.Capacity (classParts record) halt) :
    PartRefused record cause halt
  | field {field : FieldRecord} {cause : Invalid} {halt : Halt} (hfield : field ∈ record.fields)
    (h : field.Refused record.name cause halt) : PartRefused record cause halt
  | method {method : MethodRecord} {cause : Invalid} {halt : Halt}
    (hmethod : method ∈ record.methods)
    (h : method.Refused record.name record.majorVersion cause halt) :
    PartRefused record cause halt

/-- Why a sound class cannot be written: it has no name, one of its parts cannot be
    written where entering what it names halts, or a text in its pool is too
    long. -/
inductive ClassRecord.Refused (record : ClassRecord) : Invalid → Prop
  | unnamed (h : record.name.isEmpty) : Refused record .noClassName
  | part {cause : Invalid} {halt : Halt} (hhalts : Halts record.mentions .empty halt)
    (h : record.PartRefused cause halt) : Refused record cause
  | text {linker : Linker} {text : String}
    (henter : Linking.enterAll record.mentions .empty = .ok () linker)
    (hentry : .utf8 text ∈ linker.pool.entries)
    (h : 0xFFFF < (ModifiedUtf8.encode text).length) :
    Refused record (.utf8Length (ModifiedUtf8.encode text).length)

namespace ClassFile

variable {linked : Prop}

/-! ## Members -/

theorem enters_writeShared {annotations : Annotations} {attrs : List Attribute}
    (hannotations : annotations.Countable) (hattrs : ∀ attr ∈ attrs, attr.Countable) :
    Enters (Linker.Tidy linked) (writeShared annotations attrs) (sharedMentions annotations attrs)
      (fun ws => ws.length = annotations.number + attrs.length)
      (Invalid.Capacity (sharedParts annotations attrs)) := by
  have hfirst : Enters (Linker.Tidy linked) (Attribute.writeAnnotations annotations) _ _
      (Invalid.Capacity (sharedParts annotations attrs)) :=
    (Attribute.enters_writeAnnotations hannotations).causes fun _ _ =>
      .mono (by simp +contextual [sharedParts])
  have hattr : ∀ attr ∈ attrs, Enters (Linker.Tidy linked) (Attribute.write attr) attr.mentions
      (fun _ => True) (Invalid.Capacity (sharedParts annotations attrs)) := fun attr hattr =>
    (Attribute.enters_write (hattrs attr hattr)).causes fun _ _ =>
      .mono (by simp +contextual [sharedParts, List.mem_map_of_mem hattr])
  refine hfirst.bind fun first hfirst => (Enters.each hattr).last fun others hothers => .pure ?_
  rw [List.length_append, hfirst, hothers]

theorem enters_writeField (owner : String) {field : FieldRecord} (hsound : field.Sound linked) :
    Enters (Linker.Tidy linked) (writeField owner field) field.mentions (fun _ => True)
      (field.Refused owner) := by
  have hfit : ∀ parts : List (String × Linking Bytes), (∀ part ∈ parts, part ∈ fieldParts field) →
      ∀ cause halt, Invalid.Capacity parts cause halt → field.Refused owner cause halt :=
    fun _ hparts _ _ h => .capacity (h.mono hparts)
  have hfull : ∀ cause halt, cause.PoolFull halt → field.Refused owner cause halt :=
    fun _ _ h => .capacity h.capacity
  refine .guard (fun hname _ => .unnamed hname) fun _ => ?_
  refine ((enters_text field.name).causes hfull).after fun _ => ?_
  refine ((enters_text field.descriptor).causes hfull).after fun _ => ?_
  refine (AttributeTable.enters_optional _ (fun value hvalue =>
    ((enters_constant (hsound.value value hvalue)).causes hfull).map fun _ _ => trivial)
      (hfit _ (by simp +contextual [fieldParts]))).bind fun value hvalue => ?_
  refine ((enters_writeShared hsound.annotations hsound.attributes).causes
    (hfit _ (by simp +contextual [fieldParts]))).last fun shared hshared => ?_
  have hcount : (value ++ shared).length ≤ 0xFFFF := by
    have hnumber := hsound.number
    rw [FieldRecord.number] at hnumber
    rw [List.length_append, hvalue, hshared]
    omega
  exact (AttributeTable.enters_write hcount).last fun _ _ => .pure trivial

/-- A sound method, with a body that is refused for its reasons. -/
theorem enters_writeMethod (owner : String) (majorVersion : UInt16) {method : MethodRecord}
    (hsound : method.Sound linked)
    (hframes : ∀ code ∈ method.code, ∀ frames ∈ code.frames,
      ∃ deltas, frames = .compressed deltas) :
    Enters (Linker.Tidy linked) (writeMethod (writeBody owner majorVersion) owner method)
      method.mentions (fun _ => True) (method.Refused owner majorVersion) := by
  have hfit : ∀ parts : List (String × Linking Bytes),
      (∀ part ∈ parts, part ∈ methodParts owner majorVersion method) →
        ∀ cause halt, Invalid.Capacity parts cause halt →
          method.Refused owner majorVersion cause halt :=
    fun _ hparts _ _ h => .capacity (h.mono hparts)
  have hfull : ∀ cause halt, cause.PoolFull halt → method.Refused owner majorVersion cause halt :=
    fun _ _ h => .capacity h.capacity
  refine .guard (fun hname _ => .unnamed hname) fun _ => ?_
  refine ((enters_text method.name).causes hfull).after fun _ => ?_
  refine ((enters_text method.descriptor).causes hfull).after fun _ => ?_
  have hcode : ∀ code ∈ method.code, Enters (Linker.Tidy linked)
      (writeBody owner majorVersion method code) code.mentions (fun _ => True)
      (method.Refused owner majorVersion) := fun code hcode =>
    (Body.enters_write owner majorVersion method (hsound.code code hcode)
      (hframes code hcode)).causes fun _ _ => .body hcode
  refine (AttributeTable.enters_optional _ hcode
    (hfit _ (by simp +contextual [methodParts]))).bind fun code hcode => ?_
  have hexceptions : ∀ names ∈ method.exceptions?, Enters (Linker.Tidy linked)
      (Attribute.writeClassNames names) (names.map .type) (fun _ => True)
      (method.Refused owner majorVersion) := by
    intro names hnames
    unfold MethodRecord.exceptions? at hnames
    split at hnames
    next => exact nomatch hnames
    next =>
      obtain rfl := Option.some.inj hnames
      exact (Attribute.enters_writeClassNames hsound.exceptions).causes hfull
  refine (AttributeTable.enters_optional _ hexceptions
    (hfit _ (by simp +contextual [methodParts]))).bind fun exceptions hexceptions => ?_
  refine ((enters_writeShared hsound.annotations hsound.attributes).causes
    (hfit _ (by simp +contextual [methodParts]))).last fun shared hshared => ?_
  have hcount : (code ++ exceptions ++ shared).length ≤ 0xFFFF := by
    have hnumber := hsound.number
    have hdeclared : method.exceptions?.toList.length = if method.exceptions.isEmpty then 0 else 1 := by
      unfold MethodRecord.exceptions?
      split <;> rfl
    rw [MethodRecord.number] at hnumber
    rw [List.length_append, List.length_append, hcode, hexceptions, hshared, hdeclared]
    omega
  exact (AttributeTable.enters_write hcount).last fun _ _ => .pure trivial

/-! ## The bootstrap method table -/

theorem writeBootstrapRow_eq_ok {row : BootstrapRow} (h : row.arguments.length ≤ 0xFFFF) :
    ∃ w, writeBootstrapRow row = .ok w := by
  obtain ⟨word, hword⟩ := Enters.count_eq_ok h "bootstrap arguments"
  exact ⟨_, Result.bind_eq_ok.mpr ⟨word, hword, rfl⟩⟩

/-- The content of the table of bootstrap methods of a tidy linker. -/
theorem bootstrapsContent_eq_ok {linker : Linker} (htidy : linker.Tidy linked) :
    ∃ content, bootstrapsContent linker = .ok content linker := by
  have hcount : linker.rows.toList.length ≤ 0xFFFF := by
    have hsize := htidy.named.size_le
    have hleast := htidy.named.least_le
    simp only [Pool.Builder.maxSlots] at hsize
    rw [Array.length_toList]
    omega
  obtain ⟨word, hword⟩ := Enters.count_eq_ok hcount "bootstrap methods"
  obtain ⟨rows, hrows⟩ := Result.exists_mapM fun row hrow =>
    writeBootstrapRow_eq_ok (htidy.arguments row (Array.mem_toList_iff.mp hrow))
  refine ⟨Bytes.u2 word ++ rows.flatten, Linking.bind_eq_ok.mpr ⟨linker, linker, rfl, ?_⟩⟩
  exact Linking.bind_eq_ok.mpr ⟨word, linker, Linking.liftM_eq_ok.mpr ⟨hword, rfl⟩,
    Linking.bind_eq_ok.mpr ⟨rows, linker, Linking.liftM_eq_ok.mpr ⟨hrows, rfl⟩, rfl⟩⟩

theorem writeBootstraps_of_none {linker : Linker} (hrows : linker.rows.toList.isEmpty) :
    writeBootstraps linker = .ok [] linker ∧
      Linking.enterAll [.bootstraps] linker = .ok () linker := by
  constructor
  · change (if linker.rows.toList.isEmpty then _ else _ : Linking (List Bytes)) linker = _
    rw [if_pos hrows]
    rfl
  · change (do
      (if linker.rows.toList.isEmpty then _ else _ : Linking Unit)
      Linking.enterAll [] : Linking Unit) linker = _
    rw [if_pos hrows]
    rfl

theorem writeBootstraps_of_some {linker : Linker} (hrows : ¬ linker.rows.toList.isEmpty) :
    writeBootstraps linker = (do
      let w ← bootstrapsContent >>= AttributeTable.attr AttributeName.bootstrapMethods
      return [w] : Linking (List Bytes)) linker ∧
      Mention.bootstraps.enter linker = (do
        let _ ← (liftM (Pool.Intern.utf8 AttributeName.bootstrapMethods) :
          Linking Pool.Index) : Linking Unit) linker := by
  constructor
  · unfold writeBootstraps bootstrapsContent
    simp only [bind_assoc]
    change (if linker.rows.toList.isEmpty then _ else _ : Linking (List Bytes)) linker = _
    rw [if_neg hrows]
    rfl
  · change (if linker.rows.toList.isEmpty then _ else _ : Linking Unit) linker = _
    rw [if_neg hrows]

theorem enters_writeBootstraps :
    Enters (Linker.Tidy linked) writeBootstraps [.bootstraps]
      (fun ws => ws = [] ∨ linked ∧ ws.length = 1)
      (Invalid.Capacity [(AttributeName.bootstrapMethods, bootstrapsContent)]) := by
  intro linker htidy
  by_cases hrows : linker.rows.toList.isEmpty
  · obtain ⟨hwrite, henter⟩ := writeBootstraps_of_none hrows
    refine ⟨fun ws t hrun => ?_, fun cause t hrun => nomatch hwrite.symm.trans hrun⟩
    cases hwrite.symm.trans hrun
    exact ⟨htidy, .inl rfl, henter⟩
  · obtain ⟨hwrite, henter⟩ := writeBootstraps_of_some hrows
    have hlinked : linked := htidy.linked fun hempty => hrows (by rw [hempty]; rfl)
    obtain ⟨content, hcontent⟩ := bootstrapsContent_eq_ok htidy
    have hname : EntersFrom linker (Linker.Tidy linked)
        (liftM (Pool.Intern.utf8 AttributeName.bootstrapMethods) : Linking Pool.Index)
        [.bootstraps] (fun _ => True) Invalid.PoolFull := by
      obtain ⟨hok, herror⟩ :=
        Linking.attempt_request (.utf8 AttributeName.bootstrapMethods) rfl linker htidy
      exact .single henter (fun a t hrun => (hok a t hrun).1) herror
    have hattr : EntersFrom linker (Linker.Tidy linked)
        (AttributeTable.attr AttributeName.bootstrapMethods content) [.bootstraps]
        (fun _ => True)
        (Invalid.Capacity [(AttributeName.bootstrapMethods, bootstrapsContent)]) := by
      refine .guard (fun hlong => .long (.head _) hcontent hlong) fun _ => ?_
      exact (hname.causes fun _ _ h => h.capacity).last fun _ _ _ ht _ => .pure ht trivial
    have hboth : EntersFrom linker (Linker.Tidy linked)
        (bootstrapsContent >>= AttributeTable.attr AttributeName.bootstrapMethods) _ _ _ :=
      hattr.congr (by simp only [Bind.bind, EStateM.bind, hcontent])
    refine .congr ?_ hwrite
    exact hboth.last fun _ _ _ ht _ => .pure ht (.inr ⟨hlinked, rfl⟩)

/-! ## Classes -/

/-- **A sound class**, with room for the table of bootstrap methods, enters what it
    names in the order of its mentions, or one of its parts cannot be written. -/
theorem enters_writePlain {record : ClassRecord} (hsound : record.Sound linked)
    (hroom : linked → record.number < 0xFFFF)
    (hframes : ∀ method ∈ record.methods, ∀ code ∈ method.code, ∀ frames ∈ code.frames,
      ∃ deltas, frames = .compressed deltas) :
    Enters (Linker.Tidy linked) (writePlain record) record.mentions (fun _ => True)
      record.PartRefused := by
  have hfit : ∀ parts : List (String × Linking Bytes),
      (∀ part ∈ parts, part ∈ classParts record) →
        ∀ cause halt, Invalid.Capacity parts cause halt → record.PartRefused cause halt :=
    fun _ hparts _ _ h => .capacity (h.mono hparts)
  have hfull : ∀ cause halt, cause.PoolFull halt → record.PartRefused cause halt :=
    fun _ _ h => .capacity h.capacity
  refine ((enters_type record.name).causes hfull).after fun _ => ?_
  refine ((enters_type? record.superName).causes hfull).after fun _ => ?_
  have hinterfaces : Enters (Linker.Tidy linked) (Linking.each
      (fun name => Bytes.u2 <$> (liftM (Pool.Intern.classRef name) : Linking UInt16))
      record.interfaces) (record.interfaces.map .type)
      (fun ws => ws.length = record.interfaces.length) record.PartRefused := by
    rw [List.map_eq_flatMap]
    exact .each fun name _ => ((enters_type name).causes hfull).map fun _ _ => trivial
  refine (Enters.count hsound.interfaces _).silent fun _ _ => hinterfaces.after fun _ => ?_
  refine (Enters.count hsound.fieldCount _).silent fun _ _ => ?_
  refine (Enters.each fun field hfield => (enters_writeField record.name
    (hsound.fields field hfield)).causes fun _ _ => .field hfield).after fun _ => ?_
  refine (Enters.count hsound.methodCount _).silent fun _ _ => ?_
  refine (Enters.each fun method hmethod => (enters_writeMethod record.name
    record.majorVersion (hsound.methods method hmethod) (hframes method hmethod)).causes
      fun _ _ => .method hmethod).after fun _ => ?_
  refine (AttributeTable.enters_optional _ (fun file _ =>
    ((enters_text file).causes hfull).map fun _ _ => trivial)
      (hfit _ (by simp +contextual [classParts]))).bind fun file hfile => ?_
  refine (AttributeTable.enters_optional _ (fun _ _ => .pure trivial)
    (hfit _ (by simp +contextual [classParts]))).bind fun extension hextension => ?_
  refine ((enters_writeShared hsound.annotations hsound.attributes).causes
    (hfit _ (by simp +contextual [classParts]))).bind fun shared hshared => ?_
  refine (enters_writeBootstraps.causes (hfit _ (by simp +contextual [classParts]))).last
    fun bootstraps hbootstraps => ?_
  have hcount : (file ++ extension ++ shared ++ bootstraps).length ≤ 0xFFFF := by
    have hnumber := hsound.number
    rw [ClassRecord.number] at hnumber hroom
    simp only [List.length_append, hfile, hextension, hshared]
    rcases hbootstraps with rfl | ⟨hlinked, hone⟩
    · rw [List.length_nil]
      omega
    · have := hroom hlinked
      omega
  exact (AttributeTable.enters_write hcount).last fun _ _ => .pure trivial

theorem encode_of_name {record : ClassRecord} (hname : ¬ record.name.isEmpty) :
    encode record {} .trivial =
      match writePlain record .empty with
      | .error cause _ => .error cause
      | .ok body linker => do
        let pool ← linker.pool.write
        return Bytes.u4 magic ++ Bytes.u2 record.minorVersion ++
          Bytes.u2 record.majorVersion ++ pool ++ body := by
  rw [encode, if_neg hname]
  rfl

/-- **A sound class** is written, or refused for one of its reasons. -/
theorem encode_or_refused {record : ClassRecord} (hsound : record.Sound linked)
    (hroom : linked → record.number < 0xFFFF)
    (hframes : ∀ method ∈ record.methods, ∀ code ∈ method.code, ∀ frames ∈ code.frames,
      ∃ deltas, frames = .compressed deltas) :
    (∃ bytes, encode record {} .trivial = .ok bytes) ∨
      ∃ cause, encode record {} .trivial = .error cause ∧ record.Refused cause := by
  by_cases hname : record.name.isEmpty
  · refine .inr ⟨.noClassName, ?_, .unnamed hname⟩
    rw [encode, if_pos hname]
    rfl
  rw [encode_of_name hname]
  obtain ⟨hok, herror⟩ :=
    enters_writePlain hsound hroom hframes .empty (Linker.tidy_empty linked)
  cases hrun : writePlain record .empty with
  | error cause linker =>
    obtain ⟨halt, -, hrefused, hhalts⟩ := herror cause linker hrun
    exact .inr ⟨cause, rfl, .part hhalts hrefused⟩
  | ok body linker =>
    obtain ⟨-, -, henter⟩ := hok body linker hrun
    cases hpool : linker.pool.write with
    | ok pool =>
      refine .inl ⟨Bytes.u4 magic ++ Bytes.u2 record.minorVersion ++
        Bytes.u2 record.majorVersion ++ pool ++ body, ?_⟩
      dsimp only
      rw [hpool]
      rfl
    | error cause =>
      obtain ⟨text, hentry, hlong, rfl⟩ := Pool.Builder.error_of_write hpool
      refine .inr ⟨_, ?_, .text henter hentry hlong⟩
      dsimp only
      rw [hpool]
      rfl

end ClassFile

end JvmClass
