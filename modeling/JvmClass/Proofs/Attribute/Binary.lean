/-
  The contents of attributes survive writing.

  * `Attribute.ReadsAs`: a content is read as an attribute of a known kind;
    `yields_writeContent` says so of what is written;
  * `AttributeName.inField`, `inMethod`, `inClass` and `inCode` are the names
    with a meaning of their own at a place;
  * a `Level` is a place where attributes stand: how it reads those that
    classes, fields and methods have in common, and its own;
    `yields_writeShared` is what is written there.
-/
import JvmClass.Attribute.Binary
import JvmClass.ClassFile.Writing
import JvmClass.Proofs.Annotation.Binary
import JvmClass.Proofs.Attribute.Table

namespace JvmClass

namespace AttributeName

/-- The names of the attributes that classes, fields and methods have in
    common. -/
def shared : List String :=
  [visibleAnnotations, invisibleAnnotations, visibleTypeAnnotations, invisibleTypeAnnotations,
    signature, deprecated, synthetic]

/-- The names with a meaning of their own in a field. -/
def inField : List String := constantValue :: shared

/-- The names with a meaning of their own in a method. -/
def inMethod : List String :=
  [code, exceptions, methodParameters, annotationDefault, visibleParameterAnnotations,
    invisibleParameterAnnotations] ++ shared

/-- The names with a meaning of their own in a class. -/
def inClass : List String :=
  [sourceFile, sourceDebugExtension, bootstrapMethods, innerClasses, enclosingMethod, nestHost,
    nestMembers, permittedSubclasses] ++ shared

/-- The names with a meaning of their own in a method body. -/
def inCode : List String :=
  [lineNumberTable, localVariableTable, localVariableTypeTable, stackMapTable,
    visibleTypeAnnotations, invisibleTypeAnnotations]

end AttributeName

namespace Attribute

open Reader Bytes AttributeTable

/-! ## Contents -/

/-- The values in an attribute do not nest too deep to be read. -/
def Nests : Attribute → Prop
  | annotationDefault value => value.depth ≤ Annotations.maxNesting
  | parameterAnnotations _ parameters => ∀ list ∈ parameters, ∀ a ∈ list, a.Nests
  | _ => True

/-- The bytes `content` are read as what an attribute holds. -/
def ReadsAs (pool : Pool) (content : Bytes) : Attribute → Prop
  | raw attr => content = attr.info
  | signature text => ∃ index, content = Bytes.u2 index ∧ pool.utf8 index = .ok text
  | deprecated | synthetic => content = []
  | innerClasses classes =>
    Reads (do times (← Reader.u2).toNat (readInnerClass pool)) content classes
  | enclosingMethod enclosing => Reads (readEnclosingMethod pool) content enclosing
  | nestHost host => ∃ index, content = Bytes.u2 index ∧ pool.className index = .ok host
  | nestMembers names | permittedSubclasses names => Reads (readClassNames pool) content names
  | methodParameters parameters =>
    Reads (do times (← Reader.u1).toNat (readParameter pool)) content parameters
  | annotationDefault value => Reads (Annotations.readValue pool) content value
  | parameterAnnotations _ parameters =>
    Reads (do times (← Reader.u1).toNat (Annotations.readList pool)) content parameters

theorem yields_writeClassNames (names : List String) :
    Yields (writeClassNames names) fun linker w =>
      Reads (readClassNames linker.toLinkage.pool) w names :=
  Yields.counted fun name _ => (Pool.yields_classRef name).lift.bind fun index =>
    .pure fun _ _ h => (reads_u2 index).thenOk h

theorem yields_writeInnerClass (inner : InnerClass) :
    Yields (writeInnerClass inner) fun linker w =>
      Reads (readInnerClass linker.toLinkage.pool) w inner := by
  refine (Pool.yields_classRef inner.name).lift.bind fun name => ?_
  refine (Pool.yields_classRef? inner.outerName).lift.bind fun outerName => ?_
  refine (Pool.yields_utf8? inner.innerName).lift.bind fun innerName => .pure ?_
  intro linker _ hinner houter hname
  simp only [List.append_assoc]
  exact Reads.consIndex hname (Reads.consIndex houter (Reads.consIndex hinner
    (reads_u2 inner.access.bits).map))

theorem yields_writeEnclosingMethod (enclosing : EnclosingMethod) :
    Yields (writeEnclosingMethod enclosing) fun linker w =>
      Reads (readEnclosingMethod linker.toLinkage.pool) w enclosing := by
  obtain ⟨owner, method⟩ := enclosing
  refine (Pool.yields_classRef owner).lift.bind fun index => ?_
  cases method with
  | none =>
    refine .pure fun linker _ howner => Reads.consIndex howner ?_
    exact (reads_u2 0).bindDone Reads.pure
  | some nameAndType =>
    refine (Pool.yields_nameAndType nameAndType.1 nameAndType.2).lift.bind fun second => .pure ?_
    intro linker hvalid hsecond howner
    obtain ⟨entry, hentry, -⟩ := Result.bind_eq_ok.mp hsecond
    have hzero := Pool.ne_zero_of_get hvalid.pool hentry
    refine Reads.consIndex howner ((reads_u2 second).bindDone ?_)
    rw [if_neg hzero]
    exact Reads.lift hsecond Reads.pure

theorem yields_writeParameter (parameter : MethodParameter) :
    Yields (writeParameter parameter) fun linker w =>
      Reads (readParameter linker.toLinkage.pool) w parameter := by
  refine (Pool.yields_utf8? parameter.name).lift.bind fun name => .pure fun linker _ hname => ?_
  exact Reads.consIndex hname (reads_u2 parameter.access.bits).map

theorem yields_byteCounted {α : Type} {write : α → Linking Bytes} {reader : Linker → Reader α}
    {items : List α} (hlength : items.length ≤ 0xFF)
    (h : ∀ a ∈ items, Yields (write a) fun linker w => Reads (reader linker) w a) :
    Yields (do return UInt8.ofNat items.length :: (← Linking.each write items).flatten)
      fun linker w => Reads (do times (← Reader.u1).toNat (reader linker)) w items := by
  refine (Yields.each h).bind fun ws => .pure fun linker _ hws => Reads.consU1 ?_
  refine reads_times hws ?_
  rw [UInt8.toNat_ofNat']
  omega

/-- **The content of an attribute is read as what it was written for.** -/
theorem yields_writeContent {attr : Attribute} (hnests : attr.Nests) :
    Yields (writeContent attr) fun linker content =>
      attr.ReadsAs linker.toLinkage.pool content := by
  cases attr with
  | raw attr => exact .pure fun _ _ => rfl
  | signature text =>
    exact (Pool.yields_utf8 text).lift.bind fun index =>
      .pure fun _ _ h => ⟨index, rfl, h⟩
  | deprecated | synthetic => exact .pure fun _ _ => rfl
  | innerClasses classes => exact Yields.counted fun inner _ => yields_writeInnerClass inner
  | enclosingMethod enclosing => exact yields_writeEnclosingMethod enclosing
  | nestHost host =>
    exact (Pool.yields_classRef host).lift.bind fun index =>
      .pure fun _ _ h => ⟨index, rfl, h⟩
  | nestMembers names | permittedSubclasses names => exact yields_writeClassNames names
  | methodParameters parameters =>
    exact Yields.guard fun hlength => yields_byteCounted (by omega)
      fun parameter _ => yields_writeParameter parameter
  | annotationDefault value =>
    refine (Annotations.yields_writeValue value).mono fun linker content _ h => ?_
    exact h _ (Nat.lt_succ_of_le hnests)
  | parameterAnnotations visible parameters =>
    exact Yields.guard fun hlength => yields_byteCounted (by omega)
      fun list hlist => Annotations.yields_writeList (hnests list hlist)

/-! ## Attributes that all places have in common -/

section
variable {pool : Pool} {shared : Shared}

theorem readShared?_of_notMem {name : String} (h : name ∉ AttributeName.shared) :
    readShared? pool name shared = none := by
  simp only [AttributeName.shared, List.mem_cons, List.not_mem_nil, or_false, not_or] at h
  obtain ⟨h₁, h₂, h₃, h₄, h₅, h₆, h₇⟩ := h
  simp only [readShared?, if_neg h₁, if_neg h₂, if_neg h₃, if_neg h₄, if_neg h₅, if_neg h₆,
    if_neg h₇]

theorem readsAt_shared {attr : Attribute} {content : Bytes} {reader : Reader Shared}
    (hreader : readShared? pool attr.name shared = some reader)
    (hraw : ∀ raw, attr = .raw raw → raw.name ∉ AttributeName.shared)
    (h : attr.ReadsAs pool content) : ReadsAt [] [] reader content (shared.push attr) := by
  cases attr with
  | raw raw =>
    have hnone : readShared? pool raw.name shared = none := readShared?_of_notMem (hraw raw rfl)
    rw [name, hnone] at hreader
    exact nomatch hreader
  | signature text =>
    obtain rfl := Option.some.inj hreader
    obtain ⟨index, rfl, htext⟩ := h
    exact (reads_u2 index).thenMap htext [] []
  | deprecated | synthetic =>
    obtain rfl := Option.some.inj hreader
    cases h
    exact ReadsAt.pure
  | parameterAnnotations visible parameters => cases visible <;> exact nomatch hreader
  | _ => exact nomatch hreader

end

/-! ## Places -/

/-- A place where attributes stand.  What has been read there is `put` around
    the parts that all places have in common; the attributes that may stand
    there are those that it reads. -/
structure Level {σ : Type} (pool : Pool) (step : String → σ → Reader σ) (put : Shared → σ)
    (allowed : String → Prop) (Stands : Attribute → Prop) : Prop where
  shared : ∀ name state reader, readShared? pool name state = some reader →
    step name (put state) = (do return put (← reader))
  own : ∀ attr content state, Stands attr → readShared? pool attr.name state = none →
    attr.ReadsAs pool content →
      ReadsAt [] [] (step attr.name (put state)) content (put (state.push attr))
  raw : ∀ attr, Stands (.raw attr) → attr.name ∉ AttributeName.shared
  allowedShared : ∀ name ∈ AttributeName.shared, allowed name
  allowedOwn : ∀ attr, Stands attr → allowed attr.name

section
variable {σ : Type} {pool : Pool} {step : String → σ → Reader σ} {put : Shared → σ}
  {allowed : String → Prop} {Stands : Attribute → Prop}

theorem Level.reads (h : Level pool step put allowed Stands) {attr : Attribute}
    {content : Bytes} (state : Shared) (hstands : Stands attr)
    (hcontent : attr.ReadsAs pool content) :
    ReadsAt [] [] (step attr.name (put state)) content (put (state.push attr)) := by
  cases hreader : readShared? pool attr.name state with
  | none => exact h.own attr content state hstands hreader hcontent
  | some reader =>
    rw [h.shared _ _ _ hreader]
    refine ReadsAt.map (readsAt_shared hreader ?_ hcontent)
    rintro raw rfl
    exact h.raw raw hstands

/-- Attributes, one after the other, that may stand at a place. -/
theorem Level.attributes (h : Level pool step put allowed Stands) {ws : List Bytes}
    {attrs : List Attribute} (state : Shared) (hstands : ∀ attr ∈ attrs, Stands attr)
    (hws : List.Forall₂ (fun w attr => ∃ content, IsAttr pool w attr.name content ∧
      attr.ReadsAs pool content) ws attrs) :
    Attributes pool step allowed (put state) ws
      (put ⟨state.annotations, attrs.reverse ++ state.attributesRev⟩) := by
  induction hws generalizing state with
  | nil => exact .nil _
  | @cons w attr ws attrs hw _ ih =>
    obtain ⟨content, hattr, hcontent⟩ := hw
    have hstands' := hstands attr (.head _)
    refine .cons hattr (h.allowedOwn attr hstands') (h.reads state hstands' hcontent) ?_
    have hrest := ih (state.push attr) fun attr hattr => hstands attr (.tail _ hattr)
    simpa [Shared.push] using hrest

/-- An attribute that all places have in common and that may be absent takes
    its place among them. -/
theorem Level.optional (h : Level pool step put allowed Stands) {α : Type} {name : String}
    {reader : Reader α} {ws : List Bytes} {a : Option α} (place : Option α → Shared)
    (hreader : readShared? pool name (place none) = some (do return place (some (← reader))))
    (hname : name ∈ AttributeName.shared) (hws : IsOptional pool name (Reads reader) ws a) :
    Attributes pool step allowed (put (place none)) ws (put (place a)) := by
  refine hws.attributes (h.allowedShared name hname) (fun a => put (place a)) ?_
  intro b _ content hcontent
  rw [h.shared _ _ _ hreader]
  exact ReadsAt.map (ReadsAt.map (hcontent [] []))

end

end Attribute

/-- Annotations that can be read again. -/
structure Annotations.Readable (annotations : Annotations) : Prop where
  visible : ∀ list ∈ annotations.visible, ∀ a ∈ list, a.Nests
  invisible : ∀ list ∈ annotations.invisible, ∀ a ∈ list, a.Nests
  visibleType : ∀ list ∈ annotations.visibleType, ∀ a ∈ list, a.Readable
  invisibleType : ∀ list ∈ annotations.invisibleType, ∀ a ∈ list, a.Readable

namespace Attribute

open Reader AttributeTable

theorem yields_writeAnnotations {annotations : Annotations} (hreadable : annotations.Readable) :
    Yields (writeAnnotations annotations) fun linker ws =>
      ∀ {σ : Type} {step : String → σ → Reader σ} {put : Shared → σ} {allowed : String → Prop}
        {Stands : Attribute → Prop}, Level linker.toLinkage.pool step put allowed Stands →
        Attributes linker.toLinkage.pool step allowed (put .empty) ws
          (put ⟨annotations, []⟩) := by
  obtain ⟨visible, invisible, visibleType, invisibleType⟩ := annotations
  refine (yields_optional _ fun list hlist =>
    Annotations.yields_writeList (hreadable.visible list hlist)).bind fun ws₁ => ?_
  refine (yields_optional _ fun list hlist =>
    Annotations.yields_writeList (hreadable.invisible list hlist)).bind fun ws₂ => ?_
  refine (yields_optional _ fun list hlist =>
    Annotations.yields_writeTypeList (.none none) (hreadable.visibleType list hlist)).bind fun ws₃ => ?_
  refine (yields_optional _ fun list hlist =>
    Annotations.yields_writeTypeList (.none none) (hreadable.invisibleType list hlist)).bind
      fun ws₄ => ?_
  refine .pure fun linker _ h₄ h₃ h₂ h₁ σ step put allowed Stands hlevel => ?_
  have hmem : ∀ name ∈ AttributeName.shared.take 4, name ∈ AttributeName.shared :=
    fun name hname => List.mem_of_mem_take hname
  have hvisible := hlevel.optional (fun list => ⟨⟨list, none, none, none⟩, []⟩) rfl
    (hmem _ (by decide)) h₁
  have hinvisible := hlevel.optional (fun list => ⟨⟨visible, list, none, none⟩, []⟩) rfl
    (hmem _ (by decide)) h₂
  have hvisibleType := hlevel.optional (fun list => ⟨⟨visible, invisible, list, none⟩, []⟩) rfl
    (hmem _ (by decide)) h₃
  have hinvisibleType := hlevel.optional
    (fun list => ⟨⟨visible, invisible, visibleType, list⟩, []⟩) rfl (hmem _ (by decide)) h₄
  exact ((hvisible.append hinvisible).append hvisibleType).append hinvisibleType

/-- **The parts that all places have in common are read as they were
    written.** -/
theorem yields_writeShared {annotations : Annotations} {attrs : List Attribute}
    (hreadable : annotations.Readable) (hnests : ∀ attr ∈ attrs, attr.Nests) :
    Yields (ClassFile.writeShared annotations attrs) fun linker ws =>
      ∀ {σ : Type} {step : String → σ → Reader σ} {put : Shared → σ} {allowed : String → Prop}
        {Stands : Attribute → Prop}, Level linker.toLinkage.pool step put allowed Stands →
        (∀ attr ∈ attrs, Stands attr) →
        Attributes linker.toLinkage.pool step allowed (put .empty) ws
          (put ⟨annotations, attrs.reverse⟩) := by
  have hwrite : ∀ attr ∈ attrs, Yields (write attr) fun linker w => ∃ content,
      IsAttr linker.toLinkage.pool w attr.name content ∧
        attr.ReadsAs linker.toLinkage.pool content := fun attr hattr =>
    (yields_writeContent (hnests attr hattr)).bind fun content =>
      (yields_attr attr.name content).mono fun _ _ _ hw hcontent => ⟨content, hw, hcontent⟩
  refine (yields_writeAnnotations hreadable).bind fun first => ?_
  refine (Yields.each hwrite).bind fun rest => .pure ?_
  intro linker _ hrest hfirst σ step put allowed Stands hlevel hstands
  have := hlevel.attributes ⟨annotations, []⟩ hstands hrest
  rw [List.append_nil] at this
  exact (hfirst hlevel).append this

end Attribute

end JvmClass
