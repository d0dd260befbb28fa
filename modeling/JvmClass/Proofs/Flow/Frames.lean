/-
  The frames of a body that was interpreted.

  * `mem_framesAt`: the frames are those of the labels asked for, and they come
    in the order of the labels (`pairwise_framesAt`);
  * `Flow.Framed` says how the result of an analysis with frames comes from the
    interpretation of a body, and `framed_of_analyze` that it does.
-/
import JvmClass.Proofs.Flow.Analysis
import JvmClass.Proofs.Flow.DeadCode
import JvmClass.Proofs.Flow.Edges
import JvmClass.Proofs.Flow.Worklist

namespace JvmClass

namespace Flow

theorem getElem?_marks {labels : List Label} {marks : Array Bool} {i : Nat} :
    (labels.foldl (fun marks label => marks.setIfInBounds label true) marks)[i]? = some true ↔
      marks[i]? = some true ∨ i ∈ labels ∧ i < marks.size := by
  induction labels generalizing marks with
  | nil => simp
  | cons label labels ih =>
    rw [List.foldl_cons, ih, Array.size_setIfInBounds, Array.getElem?_setIfInBounds, List.mem_cons]
    by_cases heq : label = i
    · subst heq
      by_cases hlt : label < marks.size <;> simp [hlt]
    · simp [heq, Ne.symm heq]

/-- **The frames are those of the labels asked for** that have one. -/
theorem mem_framesAt {entries : Array (Option FlowState)} {dead : List (Nat × Nat)}
    {labels : List Label} {frame : Frame} :
    frame ∈ framesAt entries dead labels ↔
      ∃ label ∈ labels, label < entries.size ∧ frameAt entries dead label = some frame := by
  have hmark (i : Nat) : (labels.foldl (fun marks label => marks.setIfInBounds label true)
      (Array.replicate entries.size false))[i]? = some true ↔ i ∈ labels ∧ i < entries.size := by
    rw [getElem?_marks]
    simp [Array.getElem?_replicate]
  simp only [framesAt, List.mem_filterMap, List.mem_filter, Prod.exists,
    List.mem_zipIdx_iff_getElem?, Array.getElem?_toList]
  constructor
  · rintro ⟨mark, label, ⟨hget, rfl⟩, hframe⟩
    obtain ⟨hmem, hlt⟩ := (hmark label).mp hget
    exact ⟨label, hmem, hlt, hframe⟩
  · rintro ⟨label, hmem, hlt, hframe⟩
    exact ⟨true, label, ⟨(hmark label).mpr ⟨hmem, hlt⟩, rfl⟩, hframe⟩

/-- A frame is that of a state, or that of an unreachable range. -/
theorem frameAt_eq_some {run : Run} {dead : List (Nat × Nat)} {label : Label} {frame : Frame}
    (h : frameAt run.entries dead label = some frame) :
    (∃ state, run.entryAt label = some state ∧ frame = state.frame label) ∨
      dead ≠ [] ∧ frame = deadFrame label := by
  unfold frameAt at h
  split at h
  next state hstate => cases h; exact .inl ⟨state, hstate, rfl⟩
  next =>
    split at h
    next hany =>
      cases h
      refine .inr ⟨?_, rfl⟩
      rintro rfl
      simp at hany
    next => cases h

theorem target_of_frameAt {entries : Array (Option FlowState)} {dead : List (Nat × Nat)}
    {label : Label} {frame : Frame} (h : frameAt entries dead label = some frame) :
    frame.target = label := by
  unfold frameAt at h
  split at h
  next => cases h; rfl
  next =>
    split at h
    next => cases h; rfl
    next => cases h

/-- **The frames come in the order of their labels.** -/
theorem pairwise_framesAt (entries : Array (Option FlowState)) (dead : List (Nat × Nat))
    (labels : List Label) :
    ((framesAt entries dead labels).map (·.target)).Pairwise (· < ·) := by
  unfold framesAt
  generalize labels.foldl _ _ = marks
  have hplaces : (marks.toList.zipIdx.map (·.2)).Pairwise (· < ·) := by
    rw [List.zipIdx_map_snd]
    exact List.pairwise_lt_range'
  rw [List.pairwise_map] at hplaces ⊢
  refine (hplaces.filter _).filterMap _ ?_
  intro p q hlt frame hframe frame' hframe'
  rw [target_of_frameAt hframe, target_of_frameAt hframe']
  exact hlt

/-! ## The result -/

/-- The unreachable ranges of a body that was interpreted. -/
def deadOf (run : Run) : List (Nat × Nat) := deadRanges (run.entries.map Option.isSome).toList

/-- The frames of a body that was interpreted. -/
def framesOf (code : Code) (run : Run) : List Frame :=
  framesAt run.entries (deadOf run) (frameLabels (run.entries.map Option.isSome) code
    (removeRanges code.exceptionTable (deadOf run)) (deadOf run))

/-- The largest stack of a body that was interpreted. -/
def stackOf (run : Run) : Nat := if (deadOf run).isEmpty then run.maxStack else max run.maxStack 1

theorem withFrames_eq (code : Code) (run : Run) :
    withFrames code run = (stackOf run, ⟨0, 0, some (framesOf code run),
      bury (run.entries.map Option.isSome) code.instructions,
      removeRanges code.exceptionTable (deadOf run)⟩) := rfl

theorem le_stackOf (run : Run) : run.maxStack ≤ stackOf run := by
  unfold stackOf
  split
  · exact Nat.le_refl _
  · exact Nat.le_max_left ..

theorem stackOf_pos {run : Run} (h : deadOf run ≠ []) : 0 < stackOf run := by
  unfold stackOf
  rw [if_neg (by simpa using h)]
  exact Nat.lt_of_lt_of_le Nat.one_pos (Nat.le_max_right ..)

/-- The result of an analysis with frames, and the interpretation that it comes
    from. -/
structure Framed (hierarchy : Hierarchy) (owner : String) (method : MethodRecord) (code : Code)
    (a : Analysis) (initial : List VerificationType) (run : Run) : Prop where
  entry : initialLocals owner method.access method.name method.descriptor = .ok initial
  finished : Flow.run (bodyOf hierarchy owner code true) (entryState initial code true) = .ok run
  frames : a.frames = some (framesOf code run)
  instructions : a.instructions = bury (run.entries.map Option.isSome) code.instructions
  exceptionTable : a.exceptionTable = removeRanges code.exceptionTable (deadOf run)

end Flow

open JvmClass.Flow

/-- An analysis with frames comes from an interpretation of the body. -/
theorem framed_of_analyze {hierarchy : Hierarchy} {owner : String} {method : MethodRecord}
    {code : Code} {a : Analysis} (hnonempty : code.instructions ≠ [])
    (h : analyze hierarchy owner method code true = .ok a) :
    ∃ initial run, Framed hierarchy owner method code a initial run := by
  obtain ⟨initial, measured, hentry, hmeasured, -, -, rfl⟩ := analyze_eq_ok h
  cases hmeasured with
  | empty hempty => exact absurd hempty hnonempty
  | framed _ _ hrun =>
    rw [withFrames_eq]
    exact ⟨initial, _, hentry, hrun, rfl, rfl, rfl⟩
  | sized hframes => cases hframes

/-- With frames, no instruction calls a subroutine. -/
theorem not_isCall_of_analyze {hierarchy : Hierarchy} {owner : String} {method : MethodRecord}
    {code : Code} {a : Analysis} (h : analyze hierarchy owner method code true = .ok a)
    {i : Instruction} (hmem : i ∈ code.instructions) : ¬ IsCall i := by
  obtain ⟨hjsr, hjsrW, -⟩ := noSubroutine_of_analyze h hmem
  exact fun hcall => hcall.elim hjsr hjsrW

/-! ## A body with unreachable code -/

/-- A body that makes an object and runs in a loop, with a handler for the loop
    and for the unreachable code behind it. -/
def looping : Code where
  maxStack := 0
  maxLocals := 0
  instructions := [
    .simple Opcode.aconstNull, .var Opcode.astore 0, .type Opcode.new "B",
    .ldc (.string "x"), .var Opcode.astore 0, .simple 0x03, .jump 0x99 3,
    .simple 0x57, .simple Opcode.returnVoid,
    .simple Opcode.nop, .simple Opcode.nop,
    .simple Opcode.athrow]
  exceptionTable := [⟨3, 11, 11, none⟩]
  lineNumbers := none
  localVariables := none
  localVariableTypes := none
  frames := none
  visibleTypeAnnotations := none
  invisibleTypeAnnotations := none
  attributes := []

/-- A static method with that body. -/
def loopingMethod : MethodRecord := ⟨⟨0x0009⟩, "m", "()V", [], some looping, .absent, []⟩

theorem labelsInRange_looping : LabelsInRange looping :=
  ⟨by decide, by decide⟩

theorem analyze_looping : ∃ a, analyze .trivial "A" loopingMethod looping true = .ok a ∧
    (a.frames.map fun frames => frames.map (·.target)) = some [3, 9, 11] :=
  Result.exists_ok (by decide +kernel)

end JvmClass
