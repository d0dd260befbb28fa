/-
  Why method bodies that were read may be refused by the writer.

  * what the instructions, the exception table and the attributes of a body name
    are its mentions;
  * `Code.TablesRefused` and `Code.Refused`: the reasons to refuse a body: those of
    its instructions, a full pool, an attribute that is too long where the
    instructions are laid out, and that several of its tables were read as one that
    is too long;
  * `enters_write`: a sound body whose frames, if it has any, are differences
    is refused for no other reason.
-/
import JvmClass.Body.Writing
import JvmClass.Proofs.Attribute.Writable
import JvmClass.Proofs.Body.Decoded
import JvmClass.Proofs.Bytecode.Refused
import JvmClass.Proofs.Frame.Writable

namespace JvmClass

/-- The differences that frames are given by; none if they are spelled out. -/
def Frames.deltas : Frames → List DeltaFrame
  | compressed deltas => deltas
  | expanded _ => []

/-- What is named in an entry of a table of local variables. -/
def LocalVariable.mentions (entry : LocalVariable) : List Mention :=
  [.text entry.name, .text entry.descriptor]

/-- What is named in the exception table and the attributes of a body whose
    frames, if it has any, are differences. -/
def Code.tableMentions (code : Code) : List Mention :=
  let locals (list : List LocalVariable) := list.flatMap LocalVariable.mentions
  let annotations (list : List TypeAnnotation) := list.flatMap fun a => a.content.mentions
  code.exceptionTable.flatMap (fun handler => Mention.type? handler.catchType) ++
  (AttributeTable.mentions AttributeName.lineNumberTable (fun _ => []) code.lineNumbers ++
  (AttributeTable.mentions AttributeName.localVariableTable locals code.localVariables ++
  (AttributeTable.mentions AttributeName.localVariableTypeTable locals
    code.localVariableTypes ++
  (AttributeTable.mentions AttributeName.stackMapTable (·.flatMap DeltaFrame.mentions)
    (code.frames.map Frames.deltas) ++
  (AttributeTable.mentions AttributeName.visibleTypeAnnotations annotations
    code.visibleTypeAnnotations ++
  (AttributeTable.mentions AttributeName.invisibleTypeAnnotations annotations
    code.invisibleTypeAnnotations ++
  code.attributes.flatMap fun attr => [.text attr.name]))))))

/-- What is named in a body. -/
def Code.mentions (code : Code) : List Mention :=
  code.instructions.flatMap Instruction.mentions ++ code.tableMentions

/-- The attributes of the body of a method, whose instructions are laid out. -/
def Code.parts (method : MethodRecord) (layout : Layout) (code : Code) :
    List (String × Linking Bytes) :=
  AttributeTable.parts AttributeName.lineNumberTable (Body.writeLineNumbers layout)
    code.lineNumbers ++
  AttributeTable.parts AttributeName.localVariableTable (Body.writeVariables layout)
    code.localVariables ++
  AttributeTable.parts AttributeName.localVariableTypeTable (Body.writeVariables layout)
    code.localVariableTypes ++
  AttributeTable.parts AttributeName.stackMapTable
    (fun frames => Body.inMethod method (StackMap.write layout frames))
    (code.frames.map Frames.deltas) ++
  AttributeTable.parts AttributeName.visibleTypeAnnotations
    (Annotations.writeTypeList (some layout)) code.visibleTypeAnnotations ++
  AttributeTable.parts AttributeName.invisibleTypeAnnotations
    (Annotations.writeTypeList (some layout)) code.invisibleTypeAnnotations ++
  code.attributes.map fun attr => (attr.name, pure attr.info)

/-- Why the tables of a body, whose instructions are laid out, cannot be written,
    even though its parts are sound. -/
inductive Code.TablesRefused (method : MethodRecord) (layout : Layout) (code : Code) :
    Invalid → Halt → Prop
  | frames {linker : Linker} :
    TablesRefused method layout code (.inMethod method.name method.descriptor .poolFull)
      (.full linker)
  | capacity {cause : Invalid} {halt : Halt} (h : cause.Capacity (code.parts method layout) halt) :
    TablesRefused method layout code cause halt
  | lines {list : List LineNumber} {linker : Linker} (hlines : code.lineNumbers = some list)
    (h : 0xFFFF < list.length) :
    TablesRefused method layout code (.tooMany list.length "line numbers") (.reached linker)
  | variables {list : List LocalVariable} {linker : Linker}
    (hvariables : code.localVariables = some list ∨ code.localVariableTypes = some list)
    (h : 0xFFFF < list.length) :
    TablesRefused method layout code (.tooMany list.length "local variables") (.reached linker)

/-- Why the body of a method cannot be written, even though its parts are sound.
    Its tables are behind its instructions, and halt from there on. -/
inductive Code.Refused (method : MethodRecord) (code : Code) : Invalid → Halt → Prop
  | instructions {cause : Invalid} {halt : Halt}
    (h : Bytecode.Refused code.instructions cause halt) :
    Refused method code (.inMethod method.name method.descriptor cause) halt
  | tables {s t : Linker} {bytecode : Bytes} {layout : Layout} {cause : Invalid} {halt : Halt}
    (hlayout : Bytecode.encode code.instructions s = .ok (bytecode, layout) t)
    (hhalts : Halts code.tableMentions t halt) (h : code.TablesRefused method layout cause halt) :
    Refused method code cause halt

namespace Body

variable {linked : Prop} {layout : Layout} {starts : List Nat} {length : Nat}

theorem enters_inMethod {α : Type} {I : Linker → Prop} {mentions : List Mention} {P : α → Prop}
    {E : Invalid → Halt → Prop} {method : MethodRecord} {step : Linking α}
    (h : Enters I step mentions P E) :
    Enters I (inMethod method step) mentions P fun cause halt =>
      ∃ inner, E inner halt ∧ cause = .inMethod method.name method.descriptor inner := by
  intro s hs
  obtain ⟨hok, herror⟩ := h s hs
  unfold EntersFrom inMethod
  cases hrun : step s with
  | ok a t => exact ⟨fun b u hdone => by cases hdone; exact hok a t hrun, nofun⟩
  | error cause t =>
    refine ⟨nofun, fun cause' u hdone => ?_⟩
    cases hdone
    obtain ⟨halt, ht, hcause, hhalts⟩ := herror cause t hrun
    exact ⟨halt, ht, ⟨cause, hcause, rfl⟩, hhalts⟩

theorem enters_writeHandler (hlayout : layout.Ascends starts length) {h : ExceptionHandler}
    (hinside : h.start < h.stop ∧ h.stop ≤ starts.length ∧ h.handler < starts.length) :
    Enters (Linker.Tidy linked) (writeHandler layout h) (Mention.type? h.catchType)
      (fun _ => True) Invalid.PoolFull := by
  obtain ⟨hstart, hstop, hhandler⟩ := hinside
  obtain ⟨start, hstart⟩ := hlayout.offset_of_le (Nat.le_trans (Nat.le_of_lt hstart) hstop)
  obtain ⟨stop, hstop⟩ := hlayout.offset_of_le hstop
  obtain ⟨handler, hhandler⟩ := hlayout.offset_of_le (Nat.le_of_lt hhandler)
  refine .bindOk hstart (.bindOk hstop (.bindOk hhandler ?_))
  exact (enters_type? h.catchType).last fun _ _ => .pure trivial

theorem enters_writeLineNumbers (hlayout : layout.Ascends starts length)
    {method : MethodRecord} {code : Code} {list : List LineNumber}
    (hlist : code.lineNumbers = some list) (h : ∀ line ∈ list, line.start ≤ starts.length) :
    Enters (Linker.Tidy linked) (writeLineNumbers layout list) [] (fun _ => True)
      (code.TablesRefused method layout) := by
  refine (Enters.countOr fun hmany _ => .lines hlist hmany).silent fun _ _ => ?_
  have hlines : ∀ line ∈ list, ∃ w, writeLineNumber layout line = .ok w := by
    intro line hline
    obtain ⟨start, hstart⟩ := hlayout.offset_of_le (h line hline)
    exact ⟨_, Result.bind_eq_ok.mpr ⟨start, hstart, rfl⟩⟩
  obtain ⟨entries, hentries⟩ := Result.exists_mapM hlines
  exact .bindOk hentries (.pure trivial)

theorem enters_writeVariable (hlayout : layout.Ascends starts length) {entry : LocalVariable}
    (h : entry.start ≤ entry.stop ∧ entry.stop ≤ starts.length) :
    Enters (Linker.Tidy linked) (writeVariable layout entry) entry.mentions (fun _ => True)
      Invalid.PoolFull := by
  obtain ⟨start, hstart⟩ := hlayout.offset_of_le (Nat.le_trans h.1 h.2)
  obtain ⟨stop, hstop⟩ := hlayout.offset_of_le h.2
  have hle : ¬ stop < start := fun hlt => Nat.not_lt.mpr h.1 ((hlayout.lt_iff hstop hstart).mp hlt)
  refine .bindOk hstart (.bindOk hstop (.guard (fun hlt => absurd hlt hle) fun _ => ?_))
  exact (enters_text entry.name).after fun _ => (enters_text entry.descriptor).last fun _ _ =>
    .pure trivial

theorem enters_writeVariables (hlayout : layout.Ascends starts length)
    {method : MethodRecord} {code : Code} {list : List LocalVariable}
    (hlist : code.localVariables = some list ∨ code.localVariableTypes = some list)
    (h : ∀ entry ∈ list, entry.start ≤ entry.stop ∧ entry.stop ≤ starts.length) :
    Enters (Linker.Tidy linked) (writeVariables layout list)
      (list.flatMap LocalVariable.mentions) (fun _ => True)
      (code.TablesRefused method layout) := by
  refine (Enters.countOr fun hmany _ => .variables hlist hmany).silent fun _ _ => ?_
  exact (Enters.each fun entry hentry =>
    (enters_writeVariable hlayout (h entry hentry)).causes
      fun _ _ h => .capacity h.capacity).last fun _ _ => .pure trivial

theorem enters_writeStackMap (hlayout : layout.Ascends starts length) {method : MethodRecord}
    {code : Code} {frames : Frames} (hdeltas : ∃ deltas, frames = .compressed deltas)
    (h : frames.Within starts.length) :
    Enters (Linker.Tidy linked) (inMethod method (StackMap.write layout frames.deltas))
      (frames.deltas.flatMap DeltaFrame.mentions) (fun _ => True)
      (code.TablesRefused method layout) := by
  obtain ⟨deltas, rfl⟩ := hdeltas
  obtain ⟨hcount, hwithin, hascend⟩ := h
  refine (enters_inMethod
    (StackMap.enters_write enters_type hlayout hcount hwithin hascend)).causes ?_
  rintro _ _ ⟨_, ⟨⟩, rfl⟩
  exact .frames

theorem enters_writeTypeList (hlayout : layout.Ascends starts length) {method : MethodRecord}
    {code : Code} {list : List TypeAnnotation} (hcount : list.length ≤ 0xFFFF)
    (h : ∀ a ∈ list, a.Readable ∧ a.Within (some starts.length)) :
    Enters (Linker.Tidy linked) (Annotations.writeTypeList (some layout) list)
      (list.flatMap fun a => a.content.mentions) (fun _ => True)
      (code.TablesRefused method layout) :=
  (Annotations.enters_writeTypeList (.some hlayout) ⟨hcount, fun a ha => (h a ha).2⟩).causes
    fun _ _ h => .capacity h.capacity

theorem enters_writeRaw {method : MethodRecord} {code : Code} {attr : RawAttribute}
    (hattr : attr ∈ code.attributes) :
    Enters (Linker.Tidy linked) (AttributeTable.attr attr.name attr.info) [.text attr.name]
      (fun _ => True) (code.TablesRefused method layout) := by
  have hcontent : Enters (Linker.Tidy linked) (pure attr.info) [] (fun _ => True)
      (code.TablesRefused method layout) := .pure trivial
  refine AttributeTable.enters_attr attr.name hcontent fun _ _ h => .capacity (h.mono ?_)
  simp +contextual [Code.parts, List.mem_map_of_mem hattr]

/-! ## Bodies -/

theorem deltaFrames_eq_ok (owner : String) (method : MethodRecord) {frames : Option Frames}
    (h : ∀ f ∈ frames, ∃ deltas, f = .compressed deltas) :
    deltaFrames owner method frames = .ok (frames.map Frames.deltas) := by
  cases frames with
  | none => rfl
  | some f =>
    obtain ⟨deltas, rfl⟩ := h f rfl
    rfl

/-- **A sound body whose frames are differences** is only refused for its
    reasons. -/
theorem enters_writePrepared (owner : String) (method : MethodRecord) {code : Code}
    (hsound : code.Sound linked)
    (hframes : ∀ frames ∈ code.frames, ∃ deltas, frames = .compressed deltas) :
    Enters (Linker.Tidy linked) (writePrepared owner method code) code.mentions (fun _ => True)
      (code.Refused method) := by
  refine .bindOk (deltaFrames_eq_ok owner method hframes) ?_
  have hencode : Enters (Linker.Tidy linked)
      (inMethod method (Bytecode.encode code.instructions))
      (code.instructions.flatMap Instruction.mentions) _ (code.Refused method) :=
    (enters_inMethod (Bytecode.enters_encode fun i hi => (hsound.instructions i hi).1)).causes
      fun cause halt ⟨inner, hinner, hcause⟩ => hcause ▸ .instructions hinner
  refine fun s hs => (hencode s hs).bind fun ⟨bytecode, layout⟩ t hrun ht hlaid => ?_
  obtain ⟨starts, length, hlayout, hstarts⟩ := hlaid
  refine EntersFrom.located (E := code.TablesRefused method layout) ?_ fun cause halt hhalts h =>
    .tables (inMethod_eq_ok.mp hrun) hhalts h
  refine (?_ : Enters (Linker.Tidy linked) _ code.tableMentions _ _) t ht
  have hstop : starts.length = code.stop := hstarts
  have ⟨p₁, p₂, p₃, p₄, p₅, p₆, _⟩ := hsound.parts
  rw [← hstop] at p₁ p₂ p₃ p₄ p₅ p₆
  have hfit : ∀ parts : List (String × Linking Bytes),
      (∀ part ∈ parts, part ∈ code.parts method layout) →
        ∀ cause halt, Invalid.Capacity parts cause halt →
          code.TablesRefused method layout cause halt :=
    fun _ hparts _ _ h => .capacity (h.mono hparts)
  refine (Enters.count hsound.handlers _).silent fun _ _ => ?_
  refine (Enters.each fun h hmem => (enters_writeHandler hlayout
    (hstop ▸ hsound.inside.handlers h hmem)).causes
      fun _ _ h => .capacity h.capacity).after fun _ => ?_
  refine (AttributeTable.enters_optional _ (fun list hlist =>
    enters_writeLineNumbers hlayout hlist (p₁ list hlist))
      (hfit _ (by simp +contextual [Code.parts]))).bind fun lines hlines => ?_
  refine (AttributeTable.enters_optional _ (fun list hlist =>
    enters_writeVariables hlayout (.inl hlist) (p₂ list hlist))
      (hfit _ (by simp +contextual [Code.parts]))).bind fun locals hlocals => ?_
  refine (AttributeTable.enters_optional _ (fun list hlist =>
    enters_writeVariables hlayout (.inr hlist) (p₃ list hlist))
      (hfit _ (by simp +contextual [Code.parts]))).bind fun types htypes => ?_
  have hstackMap : ∀ deltas ∈ code.frames.map Frames.deltas, Enters (Linker.Tidy linked)
      (inMethod method (StackMap.write layout deltas)) (deltas.flatMap DeltaFrame.mentions)
      (fun _ => True) (code.TablesRefused method layout) := by
    intro deltas hmem
    obtain ⟨frames, hf, rfl⟩ := Option.map_eq_some_iff.mp hmem
    exact enters_writeStackMap hlayout (hframes frames hf) (p₄ frames hf)
  refine (AttributeTable.enters_optional _ hstackMap
    (hfit _ (by simp +contextual [Code.parts]))).bind fun stackMap hstackMap => ?_
  refine (AttributeTable.enters_optional _ (fun list hlist =>
    enters_writeTypeList hlayout (p₅ list hlist).1 (p₅ list hlist).2)
      (hfit _ (by simp +contextual [Code.parts]))).bind fun visible hvisible => ?_
  refine (AttributeTable.enters_optional _ (fun list hlist =>
    enters_writeTypeList hlayout (p₆ list hlist).1 (p₆ list hlist).2)
      (hfit _ (by simp +contextual [Code.parts]))).bind fun invisible hinvisible => ?_
  refine (Enters.each fun attr hattr => enters_writeRaw hattr).last fun others hothers => ?_
  have hcount : (lines ++ locals ++ types ++ stackMap ++ visible ++ invisible ++
      others).length ≤ 0xFFFF := by
    have := hsound.number
    simp only [List.length_append, hlines, hlocals, htypes, hstackMap, hvisible, hinvisible,
      hothers, Option.toList_map, List.length_map]
    exact this
  exact (AttributeTable.enters_write hcount).last fun _ _ => .pure trivial

/-- The same of a body whose labels are checked first, and of which the
    options ask nothing. -/
theorem enters_write {hierarchy : Hierarchy} (owner : String) (majorVersion : UInt16)
    (method : MethodRecord) {code : Code} (hsound : code.Sound linked)
    (hframes : ∀ frames ∈ code.frames, ∃ deltas, frames = .compressed deltas) :
    Enters (Linker.Tidy linked) (write {} hierarchy owner majorVersion method code)
      code.mentions (fun _ => True) (code.Refused method) := by
  have hlabels := checkLabels_eq_ok.mpr hsound.inside
  have hcheck : Enters (Linker.Tidy linked) (liftM (checkLabels code) : Linking Unit) []
      (fun _ => True) fun _ _ => False :=
    .ofExcept (fun _ _ => trivial) fun cause hcause => nomatch hlabels.symm.trans hcause
  have hchecked : Enters (Linker.Tidy linked) (inMethod method (liftM (checkLabels code))) []
      (fun _ => True) (code.Refused method) :=
    (enters_inMethod hcheck).causes fun _ _ ⟨_, hinner, _⟩ => hinner.elim
  exact hchecked.silent fun _ _ => enters_writePrepared owner method hsound hframes

end Body

end JvmClass
