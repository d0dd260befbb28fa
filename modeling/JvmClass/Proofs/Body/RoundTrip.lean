/-
  Method bodies survive writing.

  * `Code.Readable`: the parts of a body can be read again;
  * `Code.ReadAs`: a body is read for a written one, with frames spelled out
    or not;
  * `Code.normalize` is the body that is read for a written one if they are
    not: its instructions are normal and its frames are differences;
  * `yields_writePrepared`: what is written for a body whose labels lie inside
    it is read as such a body.
-/
import JvmClass.Body.Writing
import JvmClass.Body.Reading
import JvmClass.Proofs.Attribute.Binary
import JvmClass.Proofs.Body.View
import JvmClass.Proofs.Bytecode.Listing
import JvmClass.Proofs.Frame.Binary
import Mathlib.Data.List.ReduceOption

namespace JvmClass

/-- The parts of a body can be read again. -/
structure Code.Readable (code : Code) : Prop where
  nests : ∀ i ∈ code.instructions, i.Nests
  visible : ∀ list ∈ code.visibleTypeAnnotations, ∀ a ∈ list, a.Readable
  invisible : ∀ list ∈ code.invisibleTypeAnnotations, ∀ a ∈ list, a.Readable
  raw : ∀ attr ∈ code.attributes, attr.name ∉ AttributeName.inCode

/-- The frames that are read for the written ones of a method. -/
def Frames.normalize (owner : String) (method : MethodRecord) (frames : Option Frames) :
    Option Frames :=
  match Body.deltaFrames owner method frames with
  | .ok deltas => deltas.map .compressed
  | .error _ => frames

/-- The body that is read for the written one of a method. -/
def Code.normalize (owner : String) (method : MethodRecord) (code : Code) : Code :=
  { code with
    instructions := code.instructions.map Instruction.normalize
    frames := Frames.normalize owner method code.frames }

/-- The body with its instructions as they are read for written ones. -/
def Code.tidy (code : Code) : Code :=
  { code with instructions := code.instructions.map Instruction.normalize }

/-- `other` is read for the written body `code` of a method, with its frames
    `spelled` out or not. -/
structure Code.ReadAs (spelled : Bool) (owner : String) (method : MethodRecord)
    (code other : Code) : Prop where
  same : other = { code.tidy with frames := other.frames }
  frames : ∀ deltas, Body.deltaFrames owner method code.frames = .ok deltas →
    Frames.view { expandFrames := spelled } (method.initial owner) (deltas.map .compressed) =
      .ok other.frames

theorem Code.readAs_normalize (owner : String) (method : MethodRecord) (code : Code) :
    code.ReadAs false owner method (code.normalize owner method) where
  same := rfl
  frames deltas hdeltas := by
    simp only [Code.normalize, Frames.normalize, hdeltas]
    cases deltas <;> rfl

theorem Code.readAs_tidy (owner : String) (method : MethodRecord) {code : Code}
    (h : ∀ frames ∈ code.frames, ∃ list, frames = .expanded list) :
    code.ReadAs true owner method code.tidy where
  same := rfl
  frames deltas hdeltas := by
    cases hframes : code.frames with
    | none =>
      rw [hframes] at hdeltas
      cases hdeltas
      exact congrArg Except.ok hframes.symm
    | some frames =>
      obtain ⟨list, rfl⟩ := h frames hframes
      rw [hframes] at hdeltas
      obtain ⟨locals, hlocals, hdeltas⟩ := Result.bind_eq_ok.mp hdeltas
      cases hdeltas
      have hinitial : method.initial owner = .ok locals := Result.mapError_eq_ok.mp hlocals
      have hshown : Frames.shown true (method.initial owner) (.compressed (compress locals list)) =
          .ok (.expanded list) := by
        rw [hinitial]
        exact Result.bind_eq_ok.mpr ⟨locals, rfl,
          Result.bind_eq_ok.mpr ⟨list, expand_compress locals list, rfl⟩⟩
      refine (Result.bind_eq_ok.mpr ⟨_, hshown, ?_⟩ :
        Frames.view { expandFrames := true } _ (some (.compressed (compress locals list))) = _)
      exact congrArg Except.ok hframes.symm

namespace Body

open Reader AttributeTable

/-! ## Labels -/

/-- The labels of a body lie inside it. -/
structure LabelsInside (code : Code) : Prop where
  targets : ∀ i ∈ code.instructions, ∀ target ∈ i.targets, target < code.stop
  handlers : ∀ h ∈ code.exceptionTable,
    h.start < h.stop ∧ h.stop ≤ code.stop ∧ h.handler < code.stop

theorem checkTargets_eq_ok {stop index : Label} {instructions : List Instruction} :
    checkTargets stop index instructions = .ok () ↔
      ∀ i ∈ instructions, ∀ target ∈ i.targets, target < stop := by
  induction instructions generalizing index with
  | nil => simp [checkTargets]
  | cons i rest ih =>
    rw [checkTargets, List.forall_mem_cons]
    split
    next target hfind =>
      have htarget := List.find?_some hfind
      have hmem := List.mem_of_find?_eq_some hfind
      simp only [ge_iff_le, decide_eq_true_eq] at htarget
      refine ⟨nofun, fun h => ?_⟩
      exact absurd (h.1 target hmem) (Nat.not_lt.mpr htarget)
    next hfind =>
      simp only [List.find?_eq_none, ge_iff_le, decide_eq_true_eq, Nat.not_le] at hfind
      rw [ih]
      exact ⟨fun h => ⟨hfind, h⟩, fun h => h.2⟩

theorem checkHandler_eq_ok {stop : Label} {h : ExceptionHandler} :
    checkHandler stop h = .ok () ↔ h.start < h.stop ∧ h.stop ≤ stop ∧ h.handler < stop := by
  have hgood : ¬ (h.start ≥ h.stop ∨ h.stop > stop ∨ h.handler ≥ stop) ↔
      h.start < h.stop ∧ h.stop ≤ stop ∧ h.handler < stop := by
    simp only [not_or, ge_iff_le, Nat.not_le, gt_iff_lt, Nat.not_lt]
  rw [checkHandler, ← hgood]
  split
  next hbad => exact ⟨nofun, fun h => absurd hbad h⟩
  next hgood => simp only [Result.pure_eq_ok, hgood, not_false_eq_true]

/-- The check accepts exactly the bodies whose labels lie inside them. -/
theorem checkLabels_eq_ok {code : Code} : checkLabels code = .ok () ↔ LabelsInside code := by
  rw [checkLabels, Result.bind_eq_ok]
  constructor
  · rintro ⟨_, htargets, hhandlers⟩
    exact ⟨checkTargets_eq_ok.mp htargets, fun h hmem =>
      checkHandler_eq_ok.mp (Result.forM_eq_ok.mp hhandlers h hmem)⟩
  · rintro ⟨htargets, hhandlers⟩
    exact ⟨(), checkTargets_eq_ok.mpr htargets, Result.forM_eq_ok.mpr fun h hmem =>
      checkHandler_eq_ok.mpr (hhandlers h hmem)⟩

/-! ## Entries -/

theorem inMethod_eq_ok {α : Type} {method : MethodRecord} {step : Linking α} {s t : Linker}
    {a : α} : inMethod method step s = .ok a t ↔ step s = .ok a t := by
  unfold inMethod
  split
  next heq => rw [heq]
  next heq => simp [heq]

theorem yields_inMethod {α : Type} {method : MethodRecord} {step : Linking α}
    {P : Linker → α → Prop} (h : Yields step P) : Yields (inMethod method step) P :=
  fun s a t hs hrun => h s a t hs (inMethod_eq_ok.mp hrun)

section
variable {layout : Layout} {starts : List Nat} {length : Nat}

theorem yields_writeHandler (hlayout : layout.Ascends starts length) {h : ExceptionHandler}
    (hinside : h.start < h.stop ∧ h.stop ≤ starts.length ∧ h.handler < starts.length) :
    Yields (writeHandler layout h) fun linker w => ∀ method,
      Reads (readHandler linker.toLinkage method (.ofOffsets starts length)) w h := by
  have hlt : h.start < starts.length := Nat.lt_of_lt_of_le hinside.1 hinside.2.1
  refine Yields.bindOk fun start hstart => Yields.bindOk fun stop hstop => ?_
  refine Yields.bindOk fun target htarget => ?_
  refine (Pool.yields_classRef? h.catchType).lift.bind fun catchType => .pure ?_
  intro linker _ hcatch method
  simp only [List.append_assoc]
  refine (reads_u2 start).bind (Reads.lift (hlayout.instruction_of_offset hlt hstart) ?_)
  refine (reads_u2 stop).bind (Reads.lift (hlayout.label_of_offset hstop) ?_)
  refine (reads_u2 target).bind (Reads.lift (hlayout.instruction_of_offset hinside.2.2 htarget) ?_)
  refine (reads_u2 catchType).bindDone (Reads.lift hcatch ?_)
  rw [if_neg (Nat.not_le.mpr hinside.1)]
  exact Reads.pure

theorem reads_lineNumber (hlayout : layout.Ascends starts length) {lineNumber : LineNumber}
    {w : Bytes} (h : writeLineNumber layout lineNumber = .ok w) :
    Reads (readLineNumber (.ofOffsets starts length)) w (some lineNumber) := by
  obtain ⟨start, hstart, h⟩ := Result.bind_eq_ok.mp h
  cases h
  refine (reads_u2 start).bind ?_
  dsimp only
  rw [hlayout.label?_of_offset hstart]
  exact (reads_u2 lineNumber.line).map

theorem yields_writeVariable (hlayout : layout.Ascends starts length) (entry : LocalVariable) :
    Yields (writeVariable layout entry) fun linker w =>
      Reads (readVariable linker.toLinkage (.ofOffsets starts length)) w (some entry) := by
  refine Yields.bindOk fun start hstart => Yields.bindOk fun stop hstop => ?_
  refine Yields.guard fun hle => (Pool.yields_utf8 entry.name).lift.bind fun name => ?_
  refine (Pool.yields_utf8 entry.descriptor).lift.bind fun descriptor => .pure ?_
  intro linker _ hdescriptor hname
  have hsub : start.toNat + (stop - start).toNat = stop.toNat := by
    have hle := UInt16.not_lt.mp hle
    have hle' := UInt16.le_iff_toNat_le.mp hle
    rw [UInt16.toNat_sub_of_le _ _ hle]
    omega
  simp only [List.append_assoc]
  refine (reads_u2 start).bind ((reads_u2 (stop - start)).bind ?_)
  refine Reads.consIndex hname (Reads.consIndex hdescriptor ((reads_u2 entry.index).bindDone ?_))
  rw [hsub, hlayout.label?_of_offset hstart, hlayout.label?_of_offset hstop]
  exact Reads.pure

theorem reads_entries {α : Type} {entry : Reader (Option α)} {ws : List Bytes} {as : List α}
    {count : UInt16} (h : List.Forall₂ (fun w a => Reads entry w (some a)) ws as)
    (hcount : count.toNat = as.length) :
    Reads (readEntries entry) (Bytes.u2 count ++ ws.flatten) as := by
  refine (reads_u2 count).bind ?_
  have hall : List.Forall₂ (Reads entry) ws (as.map some) := List.forall₂_map_right_iff.mpr h
  have := (reads_times hall (show count.toNat = _ by simpa using hcount)).map
    (g := List.reduceOption)
  simpa [List.reduceOption] using this

theorem yields_writeLineNumbers (hlayout : layout.Ascends starts length)
    (lineNumbers : List LineNumber) :
    Yields (writeLineNumbers layout lineNumbers) fun _ w =>
      Reads (readEntries (readLineNumber (.ofOffsets starts length))) w lineNumbers := by
  refine (Yields.count _ _).bind fun count => Yields.bindOk fun entries hentries => .pure ?_
  intro linker _ hcount
  refine reads_entries ((Result.mapM_eq_ok.mp hentries).flip.imp fun w lineNumber h => ?_) hcount
  exact reads_lineNumber hlayout h

theorem yields_writeVariables (hlayout : layout.Ascends starts length)
    (entries : List LocalVariable) :
    Yields (writeVariables layout entries) fun linker w =>
      Reads (readEntries (readVariable linker.toLinkage (.ofOffsets starts length))) w entries := by
  refine (Yields.count _ _).bind fun count => ?_
  refine (Yields.each fun entry _ => yields_writeVariable hlayout entry).bind fun ws => .pure ?_
  exact fun linker _ hws hcount => reads_entries hws hcount

/-! ## The attributes of a body -/

/-- A body of whose attributes these have been read. -/
def partly (code : Code) (lineNumbers : Option (List LineNumber))
    (localVariables localVariableTypes : Option (List LocalVariable)) (frames : Option Frames)
    (visible invisible : Option (List TypeAnnotation)) : Code :=
  { code with
    lineNumbers := lineNumbers
    localVariables := localVariables
    localVariableTypes := localVariableTypes
    frames := frames
    visibleTypeAnnotations := visible
    invisibleTypeAnnotations := invisible
    attributes := [] }

variable {linkage : Linkage} (spelled : Bool) (owner : String) (method : MethodRecord)
  (labels : LabelMap)

/-- An attribute without a meaning of its own in a method body. -/
theorem readAttribute_of_notMem {name : String} (h : name ∉ AttributeName.inCode) (code : Code) :
    readAttribute linkage { expandFrames := spelled } owner method labels name code =
      (do return { code with attributes := (← Attribute.readRaw name) :: code.attributes }) := by
  simp only [AttributeName.inCode, List.mem_cons, List.not_mem_nil, or_false, not_or] at h
  obtain ⟨h₁, h₂, h₃, h₄, h₅, h₆⟩ := h
  simp only [readAttribute, Bool.false_eq_true, false_and, if_false, if_neg h₁, if_neg h₂,
    if_neg h₃, if_neg h₄, if_neg h₅, if_neg h₆]

theorem readAttribute_stackMapTable (code : Code) :
    readAttribute linkage {} owner method labels AttributeName.stackMapTable code =
      (do return { code with
        frames := some (.compressed (← StackMap.read linkage.pool labels)) }) := by
  have hframes : readFrames linkage {} owner method labels =
      (do return .compressed (← StackMap.read linkage.pool labels)) := rfl
  rw [readAttribute_frames, hframes]
  simp only [bind_assoc, pure_bind, Bool.false_eq_true, if_false]

theorem attributes_of_raw {ws : List Bytes} {attrs : List RawAttribute} (code : Code)
    (hraw : ∀ attr ∈ attrs, attr.name ∉ AttributeName.inCode)
    (hws : List.Forall₂ (fun w attr => IsAttr linkage.pool w attr.name attr.info) ws attrs) :
    Attributes linkage.pool (readAttribute linkage { expandFrames := spelled } owner method labels)
      (fun _ => True) code ws { code with attributes := attrs.reverse ++ code.attributes } := by
  induction hws generalizing code with
  | nil => exact .nil _
  | @cons w attr ws attrs hw _ ih =>
    refine .cons hw trivial (t := { code with attributes := attr :: code.attributes }) ?_ ?_
    · rw [readAttribute_of_notMem spelled owner method labels (hraw attr (.head _))]
      exact ReadsAt.map (ReadsAt.map (reads_takeRest [] attr.info))
    · have := ih { code with attributes := attr :: code.attributes }
        fun attr hattr => hraw attr (.tail _ hattr)
      simpa using this

/-- An attribute of a body that may be absent takes its place in it. -/
theorem attributes_of_optional {α : Type} {name : String} {reader : Reader α} {ws : List Bytes}
    {a : Option α} (place : Option α → Code)
    (hreader : readAttribute linkage { expandFrames := spelled } owner method labels name
      (place none) = (do return place (some (← reader))))
    (hws : IsOptional linkage.pool name (Reads reader) ws a) :
    Attributes linkage.pool (readAttribute linkage { expandFrames := spelled } owner method labels)
      (fun _ => True) (place none) ws (place a) := by
  refine hws.attributes trivial place fun b _ content hcontent => ?_
  rw [hreader]
  exact ReadsAt.map (hcontent [] [])

theorem isOptional_readFrames {ws : List Bytes} {deltas : Option (List DeltaFrame)}
    {frames : Option Frames}
    (hws : IsOptional linkage.pool AttributeName.stackMapTable
      (Reads (StackMap.read linkage.pool labels)) ws deltas)
    (hframes : Frames.view { expandFrames := spelled } (method.initial owner)
      (deltas.map .compressed) = .ok frames) :
    IsOptional linkage.pool AttributeName.stackMapTable
      (Reads (readFrames linkage { expandFrames := spelled } owner method labels)) ws frames := by
  cases deltas with
  | none =>
    cases hframes
    exact hws
  | some deltas =>
    obtain ⟨shown, hshown, hframes⟩ := Result.bind_eq_ok.mp hframes
    cases hframes
    obtain ⟨w, content, rfl, hattr, hcontent⟩ := hws
    refine ⟨w, content, rfl, hattr, ?_⟩
    rw [readFrames_eq]
    exact hcontent.thenOk hshown

theorem attributes_of_body {code : Code} {frames : Option Frames}
    (hraw : ∀ attr ∈ code.attributes, attr.name ∉ AttributeName.inCode)
    {ws₁ ws₂ ws₃ ws₄ ws₅ ws₆ ws₇ : List Bytes}
    (h₁ : IsOptional linkage.pool AttributeName.lineNumberTable
      (Reads (readEntries (readLineNumber labels))) ws₁ code.lineNumbers)
    (h₂ : IsOptional linkage.pool AttributeName.localVariableTable
      (Reads (readEntries (readVariable linkage labels))) ws₂ code.localVariables)
    (h₃ : IsOptional linkage.pool AttributeName.localVariableTypeTable
      (Reads (readEntries (readVariable linkage labels))) ws₃ code.localVariableTypes)
    (h₄ : IsOptional linkage.pool AttributeName.stackMapTable
      (Reads (readFrames linkage { expandFrames := spelled } owner method labels)) ws₄ frames)
    (h₅ : IsOptional linkage.pool AttributeName.visibleTypeAnnotations
      (Reads (Annotations.readTypeList linkage.pool (some labels))) ws₅
      code.visibleTypeAnnotations)
    (h₆ : IsOptional linkage.pool AttributeName.invisibleTypeAnnotations
      (Reads (Annotations.readTypeList linkage.pool (some labels))) ws₆
      code.invisibleTypeAnnotations)
    (h₇ : List.Forall₂ (fun w attr => IsAttr linkage.pool w attr.name attr.info) ws₇
      code.attributes) :
    Attributes linkage.pool (readAttribute linkage { expandFrames := spelled } owner method labels)
      (fun _ => True) (partly code none none none none none none)
      (ws₁ ++ ws₂ ++ ws₃ ++ ws₄ ++ ws₅ ++ ws₆ ++ ws₇)
      { code with
        frames := frames
        attributes := code.attributes.reverse } := by
  let lines := code.lineNumbers
  let locals := code.localVariables
  let types := code.localVariableTypes
  let visible := code.visibleTypeAnnotations
  have hlines := attributes_of_optional spelled owner method labels
    (fun list => partly code list none none none none none) rfl h₁
  have hvariables := attributes_of_optional spelled owner method labels
    (fun list => partly code lines list none none none none) rfl h₂
  have htypes := attributes_of_optional spelled owner method labels
    (fun list => partly code lines locals list none none none) rfl h₃
  have hframes := attributes_of_optional spelled owner method labels
    (fun list => partly code lines locals types list none none) rfl h₄
  have hvisible := attributes_of_optional spelled owner method labels
    (fun list => partly code lines locals types frames list none) rfl h₅
  have hinvisible := attributes_of_optional spelled owner method labels
    (fun list => partly code lines locals types frames visible list) rfl h₆
  have hothers := attributes_of_raw spelled owner method labels
    (partly code lines locals types frames visible
      code.invisibleTypeAnnotations) hraw h₇
  rw [show (partly code lines locals types frames visible
    code.invisibleTypeAnnotations).attributes = [] from rfl, List.append_nil] at hothers
  exact (((((hlines.append hvariables).append htypes).append hframes).append hvisible).append
    hinvisible).append hothers

end

/-- **A body that was written is read as one that is read for it**, if its
    labels lie inside it: as its normal form if frames are not spelled out. -/
theorem yields_writePrepared {owner : String} {method : MethodRecord} {code : Code}
    (hreadable : code.Readable) (hinside : LabelsInside code) :
    Yields (writePrepared owner method code) fun linker w => ∀ spelled reading other,
      reading.initial owner = method.initial owner → code.ReadAs spelled owner method other →
        ReadsAt [] [] (read linker.toLinkage { expandFrames := spelled } owner reading) w other := by
  refine Yields.bindOk fun frames hframes => ?_
  have hencode := Bytecode.yields_encode hreadable.nests hinside.targets
  refine (yields_inMethod hencode).bindKnown ?_
  rintro ⟨bytecode, layout⟩ - ⟨starts, hlayout, hstarts, -⟩
  dsimp only at hlayout
  have hhandlers : ∀ h ∈ code.exceptionTable,
      h.start < h.stop ∧ h.stop ≤ starts.length ∧ h.handler < starts.length := by
    rw [hstarts]; exact hinside.handlers
  refine (Yields.count _ _).bind fun handlerCount => ?_
  refine (Yields.each fun h hh => yields_writeHandler hlayout (hhandlers h hh)).bind
    fun handlers => ?_
  refine (yields_optional _ fun list _ => yields_writeLineNumbers hlayout list).bind fun ws₁ => ?_
  refine (yields_optional _ fun list _ => yields_writeVariables hlayout list).bind fun ws₂ => ?_
  refine (yields_optional _ fun list _ => yields_writeVariables hlayout list).bind fun ws₃ => ?_
  refine (yields_optional _ fun list _ =>
    yields_inMethod (StackMap.yields_write hlayout list)).bind fun ws₄ => ?_
  refine (yields_optional _ fun list hlist =>
    Annotations.yields_writeTypeList (.some hlayout) (hreadable.visible list hlist)).bind
      fun ws₅ => ?_
  refine (yields_optional _ fun list hlist =>
    Annotations.yields_writeTypeList (.some hlayout) (hreadable.invisible list hlist)).bind
      fun ws₆ => ?_
  refine (Yields.each fun attr _ => yields_attr attr.name attr.info).bind fun ws₇ => ?_
  refine Yields.bindOk fun table htable => .pure ?_
  intro linker _ h₇ h₆ h₅ h₄ h₃ h₂ h₁ hhandler hcount ⟨starts', hlayout', _, hdecode⟩ spelled
    reading other hinitial hother
  obtain rfl : starts' = starts :=
    List.append_cancel_right (hlayout'.toList.symm.trans hlayout.toList)
  have hshown := hother.frames frames hframes
  rw [← hinitial] at hshown
  rw [hother.same]
  have hraw : ∀ attr ∈ code.tidy.attributes, attr.name ∉ AttributeName.inCode := hreadable.raw
  have hattributes := attributes_of_body spelled owner reading
    (LabelMap.ofOffsets starts' bytecode.length) hraw h₁ h₂ h₃
    (isOptional_readFrames spelled owner reading _ h₄ hshown) h₅ h₆ h₇
  have hlength : (UInt32.ofNat bytecode.length).toNat = bytecode.length := by
    have hle := hlayout.le
    simp only [Bytecode.maxLength] at hle
    rw [UInt32.toNat_ofNat']
    omega
  simp only [List.append_assoc]
  refine (reads_u2 code.maxStack _ _).bind ((reads_u2 code.maxLocals _ _).bind ?_)
  refine (reads_u4 _ _ _).bind ?_
  dsimp only
  rw [hlength, if_neg (show ¬ bytecode.length > maxLength from Nat.not_lt.mpr hlayout.le)]
  refine (reads_take bytecode _ _).bind (ReadsAt.lift hdecode ?_)
  refine (reads_u2 handlerCount _ _).bind ?_
  refine (reads_times (hhandler.imp fun w h hread => hread reading) hcount _ _).bind ?_
  have hread := (reads_table hattributes htable).map
    (g := fun code : Code => { code with attributes := code.attributes.reverse })
  dsimp only at hread
  rw [List.reverse_reverse] at hread
  exact hread _ _

end Body

end JvmClass
