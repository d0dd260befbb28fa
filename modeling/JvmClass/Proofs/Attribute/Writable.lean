/-
  Attributes that were read can be written.

  * what an attribute names, and then its own name, are its mentions;
  * `Invalid.Capacity`: what does not fit are further entries in a full pool,
    and the content of an attribute that is too long;
  * `enters_attr` and `enters_optional`: an attribute whose content can be
    written can be written itself, unless it does not fit;
  * `enters_writeContent`: the content of an attribute whose parts can be counted
    can be written, or the pool is full;
  * `enters_writeAnnotations`: so can the annotations of a place, which make as
    many attributes as there are lists.
-/
import JvmClass.Proofs.Annotation.Writable
import JvmClass.Proofs.Attribute.Decoded

namespace JvmClass

/-! ## Limits -/

/-- What does not fit in a class file with certain attributes, each of which has a
    name and a way to write its content. -/
inductive Invalid.Capacity (parts : List (String × Linking Bytes)) : Invalid → Halt → Prop
  | pool {linker : Linker} : Capacity parts .poolFull (.full linker)
  | long {name : String} {write : Linking Bytes} {s t : Linker} {content : Bytes}
    (hpart : (name, write) ∈ parts) (hwritten : write s = .ok content t)
    (h : 0xFFFFFFFF < content.length) :
    Capacity parts (.attributeLength name content.length) (.reached t)

namespace Invalid

variable {parts more : List (String × Linking Bytes)} {cause : Invalid} {halt : Halt}

theorem PoolFull.capacity (h : cause.PoolFull halt) : cause.Capacity parts halt := by
  cases h
  exact .pool

theorem Capacity.mono (hparts : ∀ part ∈ parts, part ∈ more) (h : cause.Capacity parts halt) :
    cause.Capacity more halt := by
  cases h with
  | pool => exact .pool
  | long hpart hwritten h => exact .long (hparts _ hpart) hwritten h

end Invalid

variable {linked : Prop}

namespace AttributeTable

variable {α : Type} {E : Invalid → Halt → Prop}

/-- What an attribute with the content of `write` makes of something, if there is
    something. -/
def parts (name : String) (write : α → Linking Bytes) (a : Option α) :
    List (String × Linking Bytes) :=
  a.toList.map fun b => (name, write b)

/-- What is named in an attribute that holds something, if there is something, and
    then its own name. -/
def mentions (name : String) (of : α → List Mention) (a : Option α) : List Mention :=
  a.toList.flatMap fun b => of b ++ [.text name]

theorem enters_attr (name : String) {write : Linking Bytes} {content : List Mention}
    (h : Enters (Linker.Tidy linked) write content (fun _ => True) E)
    (hfit : ∀ cause halt, Invalid.Capacity [(name, write)] cause halt → E cause halt) :
    Enters (Linker.Tidy linked) (write >>= attr name) (content ++ [.text name])
      (fun _ => True) E := by
  refine fun s hs => (h s hs).bind fun bytes t hwritten ht _ => ?_
  refine .guard (fun hlong => hfit _ _ (.long (.head _) hwritten hlong)) fun _ => ?_
  have hname : Enters (Linker.Tidy linked) _ _ _ E :=
    (enters_text name).causes fun cause halt h => hfit cause halt h.capacity
  exact hname.last (fun _ _ => .pure trivial) t ht

/-- An attribute that may be absent is written as a list of one or none. -/
theorem enters_optional (name : String) {write : α → Linking Bytes} {of : α → List Mention}
    {a : Option α} (h : ∀ b ∈ a, Enters (Linker.Tidy linked) (write b) (of b) (fun _ => True) E)
    (hfit : ∀ cause halt, Invalid.Capacity (parts name write a) cause halt → E cause halt) :
    Enters (Linker.Tidy linked) (optional name write a) (mentions name of a)
      (fun ws => ws.length = a.toList.length) E := by
  cases a with
  | none => exact .pure rfl
  | some a =>
    have hattr := (enters_attr name (h a rfl) hfit).last (f := fun bytes => pure [bytes])
      (R := fun ws => ws.length = 1) fun _ _ => .pure rfl
    rw [bind_assoc] at hattr
    rw [mentions, Option.toList_some, List.flatMap_singleton]
    exact hattr

theorem enters_write {ws : List Bytes} (h : ws.length ≤ 0xFFFF) :
    Enters (Linker.Tidy linked) (liftM (write ws) : Linking Bytes) [] (fun _ => True) E := by
  obtain ⟨word, hword⟩ := Enters.count_eq_ok h "attributes"
  have hwrite : write ws = .ok (Bytes.u2 word ++ ws.flatten) :=
    Result.bind_eq_ok.mpr ⟨word, hword, rfl⟩
  exact .ofExcept (fun _ _ => trivial) fun cause hcause => nomatch hwrite.symm.trans hcause

end AttributeTable

namespace Attribute

/-! ## Contents -/

theorem enters_writeClassNames {names : List String} (hcount : names.length ≤ 0xFFFF) :
    Enters (Linker.Tidy linked) (writeClassNames names) (names.map .type) (fun _ => True)
      Invalid.PoolFull := by
  rw [List.map_eq_flatMap]
  exact .counted hcount fun name _ => (enters_type name).map fun _ _ => trivial

end Attribute

/-- What is named of a class that a record mentions. -/
def InnerClass.mentions (inner : InnerClass) : List Mention :=
  .type inner.name :: (Mention.type? inner.outerName ++ Mention.text? inner.innerName)

/-- The class and the method around a local class. -/
def EnclosingMethod.mentions (enclosing : EnclosingMethod) : List Mention :=
  .type enclosing.owner :: enclosing.method.toList.map fun (name, descriptor) =>
    .entry (.nameAndType name descriptor)

namespace Attribute

/-- What is named in the content of an attribute; one that is kept byte for byte
    names nothing. -/
def contentMentions : Attribute → List Mention
  | raw _ | deprecated | synthetic => []
  | signature text => [.text text]
  | innerClasses classes => classes.flatMap InnerClass.mentions
  | enclosingMethod enclosing => enclosing.mentions
  | nestHost host => [.type host]
  | nestMembers names | permittedSubclasses names => names.map .type
  | methodParameters parameters => parameters.flatMap fun parameter =>
    Mention.text? parameter.name
  | annotationDefault value => value.mentions
  | parameterAnnotations _ parameters => parameters.flatMap (·.flatMap Annotation.mentions)

/-- What is named in an attribute. -/
def mentions (attr : Attribute) : List Mention := attr.contentMentions ++ [.text attr.name]

/-- The attribute with the way to write its content. -/
def part (attr : Attribute) : String × Linking Bytes := (attr.name, writeContent attr)

theorem enters_writeInnerClass (inner : InnerClass) :
    Enters (Linker.Tidy linked) (writeInnerClass inner) inner.mentions (fun _ => True)
      Invalid.PoolFull :=
  (enters_type inner.name).after fun _ => (enters_type? inner.outerName).after fun _ =>
    (enters_text? inner.innerName).last fun _ _ => .pure trivial

theorem enters_writeEnclosingMethod (enclosing : EnclosingMethod) :
    Enters (Linker.Tidy linked) (writeEnclosingMethod enclosing) enclosing.mentions
      (fun _ => True) Invalid.PoolFull := by
  obtain ⟨owner, method⟩ := enclosing
  refine (enters_type owner).after fun _ => ?_
  cases method with
  | none => exact .pure trivial
  | some method =>
    exact (enters_request (.nameAndType method.1 method.2) rfl).last fun _ _ => .pure trivial

theorem enters_writeParameter (parameter : MethodParameter) :
    Enters (Linker.Tidy linked) (writeParameter parameter) (Mention.text? parameter.name)
      (fun _ => True) Invalid.PoolFull :=
  (enters_text? parameter.name).last fun _ _ => .pure trivial

theorem enters_writeContent {attr : Attribute} (h : attr.Countable) :
    Enters (Linker.Tidy linked) (writeContent attr) attr.contentMentions (fun _ => True)
      Invalid.PoolFull := by
  cases attr with
  | raw attr => exact .pure trivial
  | signature text => exact (enters_text text).last fun _ _ => .pure trivial
  | deprecated | synthetic => exact .pure trivial
  | innerClasses classes => exact .counted h fun inner _ => enters_writeInnerClass inner
  | enclosingMethod enclosing => exact enters_writeEnclosingMethod enclosing
  | nestHost host => exact (enters_type host).last fun _ _ => .pure trivial
  | nestMembers names | permittedSubclasses names => exact enters_writeClassNames h
  | methodParameters parameters =>
    refine .guard (fun hmany => absurd h (Nat.not_le.mpr hmany)) fun _ => ?_
    exact (Enters.each fun parameter _ => enters_writeParameter parameter).last fun _ _ =>
      .pure trivial
  | annotationDefault value => exact Annotations.enters_writeValue value h
  | parameterAnnotations visible parameters =>
    refine .guard (fun hmany => absurd h.1 (Nat.not_le.mpr hmany)) fun _ => ?_
    exact (Enters.each fun list hlist => Annotations.enters_writeList (h.2 list hlist)).last
      fun _ _ => .pure trivial

/-- **An attribute whose parts can be counted** can be written, unless it does not
    fit. -/
theorem enters_write {attr : Attribute} (h : attr.Countable) :
    Enters (Linker.Tidy linked) (write attr) attr.mentions (fun _ => True)
      (Invalid.Capacity [attr.part]) :=
  AttributeTable.enters_attr attr.name
    ((enters_writeContent h).causes fun _ _ h => h.capacity) fun _ _ => id

end Attribute

/-! ## Annotations of a place -/

namespace Annotations

/-- What annotations name. -/
def mentions (annotations : Annotations) : List Mention :=
  AttributeTable.mentions AttributeName.visibleAnnotations (·.flatMap Annotation.mentions)
    annotations.visible ++
  (AttributeTable.mentions AttributeName.invisibleAnnotations (·.flatMap Annotation.mentions)
    annotations.invisible ++
  (AttributeTable.mentions AttributeName.visibleTypeAnnotations
    (·.flatMap fun a => a.content.mentions) annotations.visibleType ++
  AttributeTable.mentions AttributeName.invisibleTypeAnnotations
    (·.flatMap fun a => a.content.mentions) annotations.invisibleType))

/-- The attributes that annotations make. -/
def parts (annotations : Annotations) : List (String × Linking Bytes) :=
  AttributeTable.parts AttributeName.visibleAnnotations writeList annotations.visible ++
  AttributeTable.parts AttributeName.invisibleAnnotations writeList annotations.invisible ++
  AttributeTable.parts AttributeName.visibleTypeAnnotations (writeTypeList none)
    annotations.visibleType ++
  AttributeTable.parts AttributeName.invisibleTypeAnnotations (writeTypeList none)
    annotations.invisibleType

end Annotations

namespace Attribute

theorem enters_writeAnnotations {annotations : Annotations} (h : annotations.Countable) :
    Enters (Linker.Tidy linked) (writeAnnotations annotations) annotations.mentions
      (fun ws => ws.length = annotations.number) (Invalid.Capacity annotations.parts) := by
  have hfull : ∀ cause halt, cause.PoolFull halt → Invalid.Capacity annotations.parts cause halt :=
    fun _ _ h => h.capacity
  refine (AttributeTable.enters_optional _ (fun list hlist =>
    (Annotations.enters_writeList (h.visible list hlist)).causes hfull)
      fun _ _ => .mono (by simp +contextual [Annotations.parts])).bind fun visible hvisible => ?_
  refine (AttributeTable.enters_optional _ (fun list hlist =>
    (Annotations.enters_writeList (h.invisible list hlist)).causes hfull)
      fun _ _ => .mono (by simp +contextual [Annotations.parts])).bind fun invisible hinvisible => ?_
  refine (AttributeTable.enters_optional _ (fun list hlist =>
    (Annotations.enters_writeTypeList .none (h.visibleType list hlist)).causes hfull)
      fun _ _ => .mono (by simp +contextual [Annotations.parts])).bind fun visibleType hvisibleType => ?_
  refine (AttributeTable.enters_optional _ (fun list hlist =>
    (Annotations.enters_writeTypeList .none (h.invisibleType list hlist)).causes hfull)
      fun _ _ => .mono (by simp +contextual [Annotations.parts])).last
        fun invisibleType hinvisibleType => .pure ?_
  simp only [List.length_append, hvisible, hinvisible, hvisibleType, hinvisibleType,
    Annotations.number]

end Attribute

end JvmClass
