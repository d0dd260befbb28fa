/-
  Encode options rewrite the record.

  * `Body.rewritten` has what an analysis found out about a body in place of what
    the body says, as far as options ask for it; `ClassRecord.rewritten` does so
    for all bodies of a class;
  * `Resized`: bytes that differ in the sizes of bodies only; classes whose bodies
    differ in their sizes only are written as such bytes (`encode_resized`);
  * `encode_rewritten`: with options, a class is written as its rewritten record
    is without them; computed frames come with computed sizes, and computed
    sizes alone change nothing but the sizes.
-/
import JvmClass.ClassFile.Writing
import JvmClass.Proofs.Body.Prepare
import JvmClass.Proofs.ClassFile.Members
import JvmClass.Proofs.Flow.Questions
import JvmClass.Proofs.Linkage.Lockstep

namespace JvmClass

namespace Body

/-- A body with what an analysis found out about it.  Computed frames replace
    those of the body, and where there are none, it has none. -/
def analyzed (options : EncodeOptions) (code : Code) (a : Analysis) : Code where
  maxStack := a.maxStack
  maxLocals := a.maxLocals
  instructions := a.instructions
  exceptionTable := a.exceptionTable
  frames :=
    match a.frames with
    | some [] => none
    | some frames => some (.expanded frames)
    | none => if options.computeFrames then none else code.frames
  lineNumbers := code.lineNumbers
  localVariables := code.localVariables
  localVariableTypes := code.localVariableTypes
  visibleTypeAnnotations := code.visibleTypeAnnotations
  invisibleTypeAnnotations := code.invisibleTypeAnnotations
  attributes := code.attributes

/-- The body that options ask for: a body whose labels are in order and which can
    be analysed is replaced, any other one stays as it is.  Frames are computed
    from version 50 on. -/
def rewritten (options : EncodeOptions) (hierarchy : Hierarchy) (owner : String)
    (majorVersion : UInt16) (method : MethodRecord) (code : Code) : Code :=
  if options.computeMaxs ∨ options.computeFrames then
    match checkLabels code, analyze hierarchy owner method code
        (options.computeFrames && framesVersion ≤ majorVersion) with
    | .ok (), .ok a => analyzed options code a
    | _, _ => code
  else code

end Body

/-- The class with the bodies that options ask for. -/
def ClassRecord.rewritten (options : EncodeOptions) (hierarchy : Hierarchy)
    (record : ClassRecord) : ClassRecord :=
  { record with
    methods := record.methods.map
      (.mapCode (Body.rewritten options hierarchy record.name record.majorVersion)) }

/-- The sizes of the stack and of the locals of a body. -/
abbrev Sizes := UInt16 × UInt16

/-- The sizes that a body declares. -/
def Code.sizes (code : Code) : Sizes := (code.maxStack, code.maxLocals)

/-- A body with other sizes. -/
def Code.resize (code : Code) (sizes : Sizes) : Code :=
  { code with
    maxStack := sizes.1
    maxLocals := sizes.2 }

open Bytes in
/-- The attribute of a body, from its sizes and the rest of its content. -/
def Body.attribute (name : Pool.Index) (sizes : Sizes) (rest : Bytes) : Bytes :=
  u2 name ++ u4 (UInt32.ofNat (4 + rest.length)) ++ (u2 sizes.1 ++ u2 sizes.2 ++ rest)

/-- `Resized changes w w'`: the bytes `w` hold the attributes of bodies, and `w'`
    is the same with other sizes in them.  The sizes before and after are those
    of `changes`, in their order. -/
inductive Resized : List (Sizes × Sizes) → Bytes → Bytes → Prop
  | same (w) : Resized [] w w
  | body (name sizes sizes' rest) :
    Resized [(sizes, sizes')] (Body.attribute name sizes rest) (Body.attribute name sizes' rest)
  | append {changes changes' v v' w w'} :
    Resized changes v v' → Resized changes' w w' →
      Resized (changes ++ changes') (v ++ w) (v' ++ w')

namespace Resized

variable {changes changes' : List (Sizes × Sizes)} {w w' : Bytes}

theorem after (h : Resized changes w w') (v : Bytes) : Resized changes (v ++ w) (v ++ w') :=
  .append (.same v) h

theorem before (h : Resized changes w w') (v : Bytes) : Resized changes (w ++ v) (w' ++ v) := by
  have happend := append h (.same v)
  rwa [List.append_nil] at happend

theorem flatten {α : Type} {f : α → List (Sizes × Sizes)} {items : List α}
    {pairs : List (Bytes × Bytes)}
    (h : List.Forall₂ (fun a p => Resized (f a) p.1 p.2) items pairs) :
    Resized (items.flatMap f) (pairs.map (·.1)).flatten (pairs.map (·.2)).flatten := by
  induction h with
  | nil => exact .same []
  | cons hp _ ih => exact .append hp ih

end Resized

/-! ## Bodies -/

namespace Body

variable {options : EncodeOptions} {hierarchy other : Hierarchy} {owner : String}
  {majorVersion : UInt16} {method : MethodRecord} {code : Code}

theorem rewritten_eq_prepare (h : checkLabels code = .ok ()) :
    rewritten options hierarchy owner majorVersion method code =
      prepare options hierarchy owner majorVersion method code := by
  unfold rewritten prepare
  simp only [Bool.or_eq_true]
  split
  · rw [h]
    cases analyze hierarchy owner method code
        (options.computeFrames && framesVersion ≤ majorVersion) with
    | error cause => rfl
    | ok a => rfl
  · rfl

theorem rewritten_of_error {cause : Invalid} (h : checkLabels code = .error cause) :
    rewritten options hierarchy owner majorVersion method code = code := by
  unfold rewritten
  rw [h, ite_id]

theorem rewritten_congr
    (h : hierarchy.Agrees other (questions options hierarchy owner majorVersion method code)) :
    rewritten options other owner majorVersion method code =
      rewritten options hierarchy owner majorVersion method code := by
  unfold rewritten
  split
  next hoptions =>
    rw [questions, if_pos (by simpa using hoptions)] at h
    rw [analyze_congr h]
  next => rfl

/-- Frames are computed together with sizes. -/
theorem rewritten_computeFrames (computeMaxs : Bool) :
    rewritten ⟨true, computeMaxs⟩ hierarchy = rewritten ⟨true, true⟩ hierarchy := by
  funext owner majorVersion method code
  unfold rewritten
  rw [if_pos (.inr rfl), if_pos (.inr rfl)]
  rfl

theorem rewritten_computeMaxs :
    rewritten ⟨false, true⟩ hierarchy owner majorVersion method code =
      code.resize (rewritten ⟨false, true⟩ hierarchy owner majorVersion method code).sizes := by
  unfold rewritten
  rw [if_pos (.inl rfl), Bool.false_and]
  split
  next a hlabels ha =>
    obtain ⟨initial, measured, -, hmeasured, -, -, rfl⟩ := analyze_eq_ok ha
    cases hmeasured with
    | empty hempty => simp [analyzed, Code.resize, Code.sizes, hempty]
    | framed hframes => cases hframes
    | sized => rfl
  next => rfl

theorem bind_of_refused {α : Type} {cause : Invalid} (f g : Unit → Linking α) :
    inMethod method (liftM (Except.error cause : Except Invalid Unit)) >>= f =
      inMethod method (liftM (Except.error cause : Except Invalid Unit)) >>= g := by
  funext linker
  rfl

/-- Without options, bodies are written as they are, whatever the record of their
    method says the body is. -/
theorem write_none (code' : Option Code) :
    write {} hierarchy owner majorVersion { method with code := code' } code = (do
      inMethod method (checkLabels code)
      writePrepared owner method code) := rfl

/-- **A body is written as the one that options ask for** is without them. -/
theorem write_rewritten (code' : Option Code) :
    write options hierarchy owner majorVersion method code =
      write {} other owner majorVersion { method with code := code' }
        (rewritten options hierarchy owner majorVersion method code) := by
  rw [write_none]
  cases hlabels : checkLabels code with
  | error cause =>
    -- Neither is written; the reason is the same.
    rw [rewritten_of_error hlabels]
    unfold write
    rw [hlabels]
    exact bind_of_refused _ _
  | ok =>
    have hinside : LabelsInside (prepare options hierarchy owner majorVersion method code) :=
      labelsInside_prepare (checkLabels_eq_ok.mp hlabels)
    rw [rewritten_eq_prepare hlabels, checkLabels_eq_ok.mpr hinside]
    unfold write
    rw [hlabels]

end Body

/-! ## Classes -/

namespace ClassFile

open Bytes

section
variable {write other : MethodRecord → Code → Linking Bytes} {f : MethodRecord → Code → Code}

theorem writeMethod_mapCode (owner : String) {method : MethodRecord}
    (h : ∀ code, write method code = other (method.mapCode f) (f method code)) :
    writeMethod write owner method = writeMethod other owner (method.mapCode f) := by
  have hcode : AttributeTable.optional AttributeName.code (write method) method.code =
      AttributeTable.optional AttributeName.code (other (method.mapCode f))
        (method.code.map (f method)) := by
    cases method.code with
    | none => rfl
    | some code => simp only [Option.map_some, AttributeTable.optional, h code]
  unfold writeMethod
  rw [hcode]
  rfl

theorem writeClass_map {g : MethodRecord → MethodRecord} {record : ClassRecord}
    (h : ∀ method, writeMethod write record.name method = writeMethod other record.name (g method)) :
    writeClass write record = writeClass other { record with methods := record.methods.map g } := by
  unfold writeClass
  simp only [List.length_map, Linking.each_map fun method _ => (h method).symm]

end

/-! ## Sizes -/

section
variable {f : MethodRecord → Code → Code}

/-- The sizes of the bodies of a method, before and after `f`. -/
def resizes (f : MethodRecord → Code → Code) (method : MethodRecord) : List (Sizes × Sizes) :=
  method.code.toList.map fun code => (code.sizes, (f method code).sizes)

/-- The sizes of a body are what its content begins with; the rest does not
    depend on them. -/
theorem lockstep_writePrepared (owner : String) (method : MethodRecord) (code : Code)
    (sizes : Sizes) :
    Lockstep (Body.writePrepared owner method code)
      (Body.writePrepared owner method (code.resize sizes))
      fun w w' => ∃ rest, w = u2 code.maxStack ++ u2 code.maxLocals ++ rest ∧
        w' = u2 sizes.1 ++ u2 sizes.2 ++ rest := by
  unfold Body.writePrepared
  refine .after fun frames => .after fun ⟨bytecode, layout⟩ => ?_
  refine .after fun handlerCount => .after fun handlers => .after fun lineNumbers => ?_
  refine .after fun localVariables => .after fun variableTypes => .after fun stackMap => ?_
  refine .after fun visible => .after fun invisible => .after fun others => .after fun table => ?_
  refine .pure ⟨u4 (UInt32.ofNat bytecode.length) ++ bytecode ++ u2 handlerCount ++
    handlers.flatten ++ table, ?_, ?_⟩
  · simp only [List.append_assoc]
  · simp only [List.append_assoc, Code.resize]

theorem lockstep_attr (name : String) (sizes sizes' : Sizes) (rest : Bytes) :
    Lockstep (AttributeTable.attr name (u2 sizes.1 ++ u2 sizes.2 ++ rest))
      (AttributeTable.attr name (u2 sizes'.1 ++ u2 sizes'.2 ++ rest))
      (Resized [(sizes, sizes')]) := by
  have hlength (sizes : Sizes) :
      (u2 sizes.1 ++ u2 sizes.2 ++ rest).length = 4 + rest.length := by
    simp only [List.length_append, u2, length_ofNat]
  unfold AttributeTable.attr
  simp only [hlength]
  exact .guard (.after fun index => .pure (.body index sizes sizes' rest))

variable {hierarchy : Hierarchy} {owner : String} {majorVersion : UInt16}

theorem lockstep_code (method : MethodRecord)
    (h : ∀ code, f method code = code.resize (f method code).sizes) :
    Lockstep
      (AttributeTable.optional AttributeName.code
        (Body.write {} hierarchy owner majorVersion method) method.code)
      (AttributeTable.optional AttributeName.code
        (Body.write {} hierarchy owner majorVersion (method.mapCode f)) (method.mapCode f).code)
      fun ws ws' => ws.length = ws'.length ∧ Resized (resizes f method) ws.flatten ws'.flatten := by
  simp only [MethodRecord.mapCode, resizes]
  cases method.code with
  | none => exact .pure ⟨rfl, .same _⟩
  | some code =>
    have hwrite : Lockstep (Body.write {} hierarchy owner majorVersion method code)
        (Body.write {} hierarchy owner majorVersion (method.mapCode f) (f method code))
        fun w w' => ∃ rest, w = u2 code.maxStack ++ u2 code.maxLocals ++ rest ∧
          w' = u2 (f method code).maxStack ++ u2 (f method code).maxLocals ++ rest := by
      rw [h code]
      exact .after fun _ => lockstep_writePrepared owner method code (f method code).sizes
    refine hwrite.bind ?_
    rintro _ _ ⟨rest, rfl, rfl⟩
    refine (lockstep_attr AttributeName.code code.sizes (f method code).sizes rest).bind ?_
    intro w w' hw
    exact .pure ⟨rfl, by simpa using hw⟩

theorem lockstep_table {changes : List (Sizes × Sizes)} {ws ws' : List Bytes}
    (hlength : ws.length = ws'.length)
    (h : Resized changes ws.flatten ws'.flatten) :
    Lockstep (liftM (AttributeTable.write ws) : Linking Bytes)
      (liftM (AttributeTable.write ws')) (Resized changes) := by
  unfold AttributeTable.write
  rw [hlength]
  cases Linking.count ws'.length "attributes" with
  | error cause => exact fun s => .inr ⟨cause, s, rfl, rfl⟩
  | ok count => exact .pure (h.after (u2 count))

theorem lockstep_writeMethod (method : MethodRecord)
    (h : ∀ code, f method code = code.resize (f method code).sizes) :
    Lockstep (writeMethod (Body.write {} hierarchy owner majorVersion) owner method)
      (writeMethod (Body.write {} hierarchy owner majorVersion) owner (method.mapCode f))
      (Resized (resizes f method)) := by
  unfold writeMethod
  refine .guard (.after fun name => .after fun descriptor => (lockstep_code method h).bind ?_)
  rintro ws ws' ⟨hlength, hws⟩
  refine .after fun exceptions => .after fun shared => ?_
  have htable : Resized (resizes f method) (ws ++ exceptions ++ shared).flatten
      (ws' ++ exceptions ++ shared).flatten := by
    simpa only [List.flatten_append] using (hws.before _).before _
  refine (lockstep_table ?_ htable).bind fun table table' h => .pure (h.after _)
  simp only [List.length_append, hlength]

/-- Classes that differ in the sizes of bodies are written with other sizes, or
    both are refused for the same reason. -/
theorem lockstep_writeClass (record : ClassRecord) (hierarchy : Hierarchy)
    (h : ∀ method code, f method code = code.resize (f method code).sizes) :
    Lockstep (writeClass (Body.write {} hierarchy record.name record.majorVersion) record)
      (writeClass (Body.write {} hierarchy record.name record.majorVersion)
        { record with methods := record.methods.map (.mapCode f) })
      (Resized (record.methods.flatMap (resizes f))) := by
  unfold writeClass
  simp only [List.length_map]
  refine .after fun name => .after fun superName => .after fun interfaceCount => ?_
  refine .after fun interfaces => .after fun fieldCount => .after fun fields => ?_
  refine .after fun methodCount => ?_
  rw [Linking.each_map fun _ _ => rfl]
  refine (Lockstep.each fun method _ => lockstep_writeMethod method (h method)).bind ?_
  rintro _ _ ⟨pairs, hpairs, rfl, rfl⟩
  refine .after fun sourceFile => .after fun extension => .after fun shared => ?_
  refine .after fun bootstraps => .after fun table => .pure ?_
  exact ((Resized.flatten hpairs).after _).before _

end

/-! ## Class files -/

/-- With options, a class is written as the class that they ask for is without
    them. -/
theorem encode_eq_rewritten (record : ClassRecord) (options : EncodeOptions)
    (hierarchy other : Hierarchy) :
    encode record options hierarchy = encode (record.rewritten options hierarchy) {} other := by
  have hclass : writeClass (Body.write options hierarchy record.name record.majorVersion) record =
      writeClass (Body.write {} other record.name record.majorVersion)
        (record.rewritten options hierarchy) :=
    writeClass_map fun method => writeMethod_mapCode record.name fun code =>
      Body.write_rewritten _
  unfold encode
  simp only [hclass]
  rfl

/-- **Writing a class depends on the answers to what it asks.** -/
theorem encode_congr {record : ClassRecord} {options : EncodeOptions} {hierarchy other : Hierarchy}
    (h : hierarchy.Agrees other (questions record options hierarchy)) :
    encode record options other = encode record options hierarchy := by
  have hrewritten : record.rewritten options other = record.rewritten options hierarchy := by
    unfold ClassRecord.rewritten
    congr 1
    refine List.map_congr_left fun method hmethod => ?_
    unfold MethodRecord.mapCode
    cases hcode : method.code with
    | none => rw [Option.map_none, Option.map_none]
    | some code =>
      have hasked := h.of_mem hmethod
      rw [hcode] at hasked
      have hbody := Body.rewritten_congr (hasked.of_mem (.head []))
      rw [Option.map_some, Option.map_some, hbody]
  calc encode record options other = encode (record.rewritten options other) {} hierarchy :=
        encode_eq_rewritten record options other hierarchy
    _ = encode (record.rewritten options hierarchy) {} hierarchy := by rw [hrewritten]
    _ = encode record options hierarchy :=
        (encode_eq_rewritten record options hierarchy hierarchy).symm

/-- Classes that differ in the sizes of bodies are written as such, or both are
    refused for the same reason. -/
theorem encode_resized (record : ClassRecord) {f : MethodRecord → Code → Code}
    {hierarchy : Hierarchy}
    (h : ∀ method code, f method code = code.resize (f method code).sizes) :
    (∃ cause, encode record {} hierarchy = .error cause ∧
        encode { record with methods := record.methods.map (.mapCode f) } {} hierarchy =
          .error cause) ∨
      ∃ w w', encode record {} hierarchy = .ok w ∧
        encode { record with methods := record.methods.map (.mapCode f) } {} hierarchy = .ok w' ∧
        Resized (record.methods.flatMap (resizes f)) w w' := by
  unfold encode
  split
  · exact .inl ⟨_, rfl, rfl⟩
  rcases lockstep_writeClass record hierarchy h .empty with
    ⟨body, body', linker, hbody, hbody', hresized⟩ | ⟨cause, linker, hbody, hbody'⟩
  · simp only [hbody, hbody']
    cases linker.pool.write with
    | error cause => exact .inl ⟨cause, rfl, rfl⟩
    | ok pool => exact .inr ⟨_, _, rfl, rfl, hresized.after _⟩
  · simp only [hbody, hbody']
    exact .inl ⟨cause, rfl, rfl⟩

/-- **Encode options are a rewriting of the class.**  Computed frames come with
    computed sizes; computed sizes alone change nothing but the sizes of bodies. -/
theorem encode_rewritten (record : ClassRecord) (hierarchy : Hierarchy) :
    (∀ options other,
      encode record options hierarchy = encode (record.rewritten options hierarchy) {} other) ∧
    (∀ computeMaxs, encode record ⟨true, computeMaxs⟩ hierarchy =
      encode record ⟨true, true⟩ hierarchy) ∧
    ((∃ cause, encode record {} hierarchy = .error cause ∧
        encode record ⟨false, true⟩ hierarchy = .error cause) ∨
      ∃ w w', encode record {} hierarchy = .ok w ∧
        encode record ⟨false, true⟩ hierarchy = .ok w' ∧
        Resized (record.methods.flatMap
          (resizes (Body.rewritten ⟨false, true⟩ hierarchy record.name record.majorVersion))) w w') := by
  refine ⟨fun options other => encode_eq_rewritten record options hierarchy other,
    fun computeMaxs => ?_, ?_⟩
  · rw [encode_eq_rewritten record ⟨true, computeMaxs⟩ hierarchy hierarchy,
      encode_eq_rewritten record ⟨true, true⟩ hierarchy hierarchy, ClassRecord.rewritten,
      Body.rewritten_computeFrames, ClassRecord.rewritten]
  · rw [encode_eq_rewritten record ⟨false, true⟩ hierarchy hierarchy]
    exact encode_resized record fun method code => Body.rewritten_computeMaxs

end ClassFile

end JvmClass
