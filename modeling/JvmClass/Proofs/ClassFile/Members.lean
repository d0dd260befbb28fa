/-
  Fields and methods survive writing.

  * `Attribute.OnField`, `OnMethod` and `OnClass` are the attributes that may
    stand at a place;
  * `yields_writeField` and `yields_writeMethod`: a member is read as its normal
    form, and its bytes can be moved over by declared lengths alone.
-/
import JvmClass.Proofs.Body.RoundTrip

namespace JvmClass

namespace Attribute

/-- Whether an attribute may stand in a field. -/
def OnField : Attribute → Prop
  | raw attr => attr.name ∉ AttributeName.inField
  | signature _ | deprecated | synthetic => True
  | _ => False

/-- Whether an attribute may stand in a method. -/
def OnMethod : Attribute → Prop
  | raw attr => attr.name ∉ AttributeName.inMethod
  | signature _ | deprecated | synthetic | methodParameters _ | annotationDefault _
  | parameterAnnotations .. => True
  | _ => False

/-- Whether an attribute may stand in a class. -/
def OnClass : Attribute → Prop
  | raw attr => attr.name ∉ AttributeName.inClass
  | signature _ | deprecated | synthetic | innerClasses _ | enclosingMethod _ | nestHost _
  | nestMembers _ | permittedSubclasses _ => True
  | _ => False

end Attribute

/-- A field that can be read again. -/
structure FieldRecord.Readable (field : FieldRecord) : Prop where
  value : ∀ value ∈ field.value, value.depth ≤ Linkage.maxDepth + 1
  annotations : field.annotations.Readable
  stands : ∀ attr ∈ field.attributes, attr.OnField
  nests : ∀ attr ∈ field.attributes, attr.Nests

/-- A method that can be read again, its body apart. -/
structure MethodRecord.Readable (method : MethodRecord) : Prop where
  annotations : method.annotations.Readable
  stands : ∀ attr ∈ method.attributes, attr.OnMethod
  nests : ∀ attr ∈ method.attributes, attr.Nests

/-- The field that is read for a written one. -/
def FieldRecord.normalize (field : FieldRecord) : FieldRecord :=
  { field with value := field.value.map Constant.normalize }

/-- The method with `f` on its body. -/
def MethodRecord.mapCode (f : MethodRecord → Code → Code) (method : MethodRecord) :
    MethodRecord :=
  { method with code := method.code.map (f method) }

namespace ClassFile

open Reader AttributeTable Attribute

theorem readsAt_raw (attr : RawAttribute) : ReadsAt [] [] (readRaw attr.name) attr.info attr :=
  ReadsAt.map (reads_takeRest [] attr.info)

/-- Three words and a table are moved over by the lengths in the table. -/
theorem reads_skipMember {σ : Type} {pool : Pool} {step : String → σ → Reader σ}
    {allowed : String → Prop} {s t : σ} {ws : List Bytes} {table : Bytes} (access name descriptor : UInt16)
    (h : Attributes pool step allowed s ws t) (htable : AttributeTable.write ws = .ok table) :
    Reads skipMember (Bytes.u2 access ++ (Bytes.u2 name ++ (Bytes.u2 descriptor ++ table))) () := by
  have hsix : (Bytes.u2 access ++ (Bytes.u2 name ++ Bytes.u2 descriptor)).length = 6 := by
    simp [Bytes.u2]
  have hread := (reads_skip hsix).bind (f := fun _ => do
    let _ ← times (← u2).toNat skipAttribute) (reads_skipTable h htable)
  rw [List.append_assoc, List.append_assoc] at hread
  exact hread

/-! ## Fields -/

theorem fieldLevel (linkage : Linkage) (value : Option Constant) :
    Level linkage.pool (readFieldAttribute linkage) (fun shared => (value, shared))
      (fun _ => True) OnField where
  shared name state reader hreader := by simp only [readFieldAttribute, hreader]
  own attr content state hstands hnone hcontent := by
    cases attr with
    | raw attr =>
      obtain rfl : content = attr.info := hcontent
      have hname : attr.name ≠ AttributeName.constantValue :=
        fun h => hstands (h ▸ List.mem_cons_self)
      simp only [readFieldAttribute, hnone]
      rw [Attribute.name, if_neg hname]
      exact ReadsAt.map (readsAt_raw attr)
    | signature | deprecated | synthetic => cases hnone
    | _ => exact absurd hstands id
  raw attr hstands hmem := hstands (.tail _ hmem)
  allowedShared _ _ := trivial
  allowedOwn _ _ := trivial

theorem yields_writeField (owner : String) {field : FieldRecord} (hreadable : field.Readable) :
    Yields (writeField owner field) fun linker w =>
      Reads (readField linker.toLinkage) w field.normalize ∧ Reads skipMember w () := by
  refine Yields.guard fun _ => (Pool.yields_utf8 field.name).lift.bind fun name => ?_
  refine (Pool.yields_utf8 field.descriptor).lift.bind fun descriptor => ?_
  have hvalue : ∀ value ∈ field.value, Yields (Bytes.u2 <$> Linking.constant value)
      fun linker content => ∃ index, content = Bytes.u2 index ∧
        linker.toLinkage.constant index = .ok value.normalize := fun value hvalue =>
    (Linking.yields_constant value).bind fun index => .pure fun linker _ h =>
      ⟨index, rfl, h _ (hreadable.value value hvalue)⟩
  refine (yields_optional _ hvalue).bind fun ws₁ => ?_
  refine (yields_writeShared hreadable.annotations hreadable.nests).bind fun ws₂ => ?_
  refine Yields.bindOk fun table htable => .pure fun linker _ hshared hvalue hdescriptor hname => ?_
  have hconstant : Attributes linker.toLinkage.pool (readFieldAttribute linker.toLinkage)
      (fun _ => True) (none, .empty) ws₁ (field.value.map Constant.normalize, .empty) := by
    refine hvalue.attributes trivial
      (fun value => (value.map Constant.normalize, Shared.empty)) ?_
    rintro value - content ⟨index, rfl, hindex⟩
    exact (reads_u2 index).thenMap hindex [] []
  have hattributes := hconstant.append
    (hshared (fieldLevel linker.toLinkage (field.value.map Constant.normalize)) hreadable.stands)
  simp only [List.append_assoc]
  constructor
  · refine (reads_u2 _).bind (Reads.consIndex hname (Reads.consIndex hdescriptor ?_))
    have := (reads_table hattributes htable).map (g := fun (parts : Option Constant × Shared) =>
      FieldRecord.mk field.access field.name field.descriptor parts.1 parts.2.annotations
        parts.2.attributes)
    simpa [FieldRecord.normalize, Shared.attributes] using this
  · exact reads_skipMember _ _ _ hattributes htable

/-! ## Methods -/

/-- An attribute that may stand in a method and is none of those that all
    places have in common. -/
theorem readsAt_readMethod {pool : Pool} {attr : Attribute} {content : Bytes} {shared : Shared}
    (hstands : attr.OnMethod) (hnone : readShared? pool attr.name shared = none)
    (hcontent : attr.ReadsAs pool content) :
    ReadsAt [] [] (Attribute.readMethod pool attr.name) content attr := by
  cases attr with
  | raw attr =>
    obtain rfl : content = attr.info := hcontent
    have hnames := hstands
    simp only [OnMethod, AttributeName.inMethod, List.mem_append, List.mem_cons,
      List.not_mem_nil, or_false, not_or] at hnames
    obtain ⟨⟨-, -, h₁, h₂, h₃, h₄⟩, -⟩ := hnames
    unfold Attribute.readMethod
    rw [Attribute.name, if_neg h₁, if_neg h₂, if_neg h₃, if_neg h₄]
    exact ReadsAt.map (readsAt_raw attr)
  | signature | deprecated | synthetic => cases hnone
  | methodParameters parameters =>
    have := ReadsAt.map (g := methodParameters) (hcontent [] [])
    rwa [bind_assoc] at this
  | annotationDefault value => exact ReadsAt.map (hcontent [] [])
  | parameterAnnotations visible parameters =>
    have := ReadsAt.map (g := parameterAnnotations visible) (hcontent [] [])
    rw [bind_assoc] at this
    cases visible <;> exact this
  | _ => exact absurd hstands id

theorem readMethodAttribute_of_onMethod {linkage : Linkage} {spelled : Bool} {owner : String}
    {attr : Attribute} {method : MethodRecord} {shared : Shared} (hstands : attr.OnMethod)
    (hnone : readShared? linkage.pool attr.name shared = none) :
    readMethodAttribute linkage { expandFrames := spelled } owner attr.name ⟨method, shared⟩ =
      (do return ⟨method, shared.push (← Attribute.readMethod linkage.pool attr.name)⟩) := by
  have hnames : attr.name ≠ AttributeName.code ∧ attr.name ≠ AttributeName.exceptions := by
    cases attr with
    | raw attr =>
      exact ⟨fun h => hstands (by rw [← Attribute.name, h]; decide),
        fun h => hstands (by rw [← Attribute.name, h]; decide)⟩
    | parameterAnnotations visible parameters =>
      cases visible <;> simp only [Attribute.name] <;> decide
    | _ => first | exact absurd hstands id | simp only [Attribute.name]; decide
  simp only [readMethodAttribute, hnone, if_neg hnames.1, if_neg hnames.2, Bool.false_eq_true,
    false_and, if_false]

theorem methodLevel (linkage : Linkage) (spelled : Bool) (owner : String) (method : MethodRecord) :
    Level linkage.pool (readMethodAttribute linkage { expandFrames := spelled } owner)
      (MethodParts.mk method) (fun _ => True) OnMethod where
  shared name state reader hreader := by simp only [readMethodAttribute, hreader]
  own attr content state hstands hnone hcontent := by
    rw [readMethodAttribute_of_onMethod hstands hnone]
    exact ReadsAt.map (readsAt_readMethod hstands hnone hcontent)
  raw attr hstands hmem := hstands (List.mem_append_right _ hmem)
  allowedShared _ _ := trivial
  allowedOwn _ _ := trivial

theorem yields_writeExceptions (exceptions : List String) :
    Yields (writeExceptions exceptions) fun linker ws =>
      IsOptional linker.toLinkage.pool AttributeName.exceptions
        (Reads (readClassNames linker.toLinkage.pool)) ws
        (if exceptions.isEmpty then none else some exceptions) :=
  yields_optional _ fun names _ => yields_writeClassNames names

/-- **A method that was written is read as it was**, its body as the normal form
    that it is read as. -/
theorem yields_writeMethod {writeBody : MethodRecord → Code → Linking Bytes} (spelled : Bool)
    (owner : String) {normal : MethodRecord → Code → Code} {method : MethodRecord}
    (hreadable : method.Readable)
    (hbody : ∀ code ∈ method.code, Yields (writeBody method code) fun linker w => ∀ reading,
      reading.initial owner = method.initial owner → ReadsAt [] []
        (Body.read linker.toLinkage { expandFrames := spelled } owner reading) w
        (normal method code)) :
    Yields (writeMethod writeBody owner method) fun linker w =>
      Reads (readMethod linker.toLinkage { expandFrames := spelled } owner) w
          (method.mapCode normal) ∧
        Reads skipMember w () := by
  refine Yields.guard fun _ => (Pool.yields_utf8 method.name).lift.bind fun name => ?_
  refine (Pool.yields_utf8 method.descriptor).lift.bind fun descriptor => ?_
  refine (yields_optional _ hbody).bind fun ws₁ => ?_
  refine (yields_writeExceptions method.exceptions).bind fun ws₂ => ?_
  refine (yields_writeShared hreadable.annotations hreadable.nests).bind fun ws₃ => ?_
  refine Yields.bindOk fun table htable => .pure ?_
  intro linker _ hshared hexceptions hcode hdescriptor hname
  let bare (code : Option Code) (exceptions : List String) : MethodRecord :=
    ⟨method.access, method.name, method.descriptor, exceptions, code, .absent, []⟩
  have hattributes₁ : Attributes linker.toLinkage.pool
      (readMethodAttribute linker.toLinkage { expandFrames := spelled } owner) (fun _ => True) ⟨bare none [], .empty⟩ ws₁
      ⟨bare (method.code.map (normal method)) [], .empty⟩ := by
    refine hcode.attributes trivial
      (fun code => MethodParts.mk (bare (code.map (normal method)) []) .empty) ?_
    intro code _ content hcontent
    exact ReadsAt.map (hcontent _ rfl)
  have hattributes₂ : Attributes linker.toLinkage.pool
      (readMethodAttribute linker.toLinkage { expandFrames := spelled } owner) (fun _ => True)
      ⟨bare (method.code.map (normal method)) [], .empty⟩ ws₂
      ⟨bare (method.code.map (normal method))
        ((if method.exceptions.isEmpty then none else some method.exceptions).getD []),
          .empty⟩ := by
    refine hexceptions.attributes trivial (fun names =>
      MethodParts.mk (bare (method.code.map (normal method)) (names.getD [])) .empty) ?_
    intro names _ content hcontent
    exact ReadsAt.map (hcontent [] [])
  have hgetD : (if method.exceptions.isEmpty then none else some method.exceptions).getD [] =
      method.exceptions := by
    cases method.exceptions <;> rfl
  rw [hgetD] at hattributes₂
  have hattributes := (hattributes₁.append hattributes₂).append
    (hshared (methodLevel linker.toLinkage spelled owner _) hreadable.stands)
  simp only [List.append_assoc] at hattributes htable ⊢
  constructor
  · refine (reads_u2 _).bind (Reads.consIndex hname (Reads.consIndex hdescriptor ?_))
    have := (reads_table hattributes htable).map (g := fun (parts : MethodParts) =>
      { parts.method with
        annotations := parts.shared.annotations
        attributes := parts.shared.attributes })
    simp only [Shared.attributes, List.reverse_reverse] at this
    exact this
  · exact reads_skipMember _ _ _ hattributes htable

end ClassFile

end JvmClass
