/-
  Whether computed sizes cover computed frames.

  * `Body.Covers`: the sizes so far cover a state, but for the exception that
    a handler is entered with; the interpretation keeps that
    (`invariant_covers`);
  * `Analysis.Covers` says that the sizes cover a frame;
  * `covers_iff`: they cover all frames unless nothing is ever pushed and
    there is an exception handler, whose frame then has one operand too many.
-/
import JvmClass.Proofs.Body.Prepare
import JvmClass.Proofs.Flow.Frames
import JvmClass.Proofs.Flow.Locals
import JvmClass.Proofs.Flow.Worklist

namespace JvmClass

open JvmClass.Flow

namespace Flow

/-! ## Covered states -/

section
variable {body : Body} {count : Nat}

/-- The sizes cover a state, but for the exception that a handler is entered
    with. -/
structure Body.Covers (body : Body) (count maxStack : Nat) (state : FlowState) : Prop
    extends state.Boxed count where
  stack : state.stackSize ≤ maxStack ∨ body.handlers ≠ [] ∧ state.stackSize ≤ 1

theorem Body.Covers.mono {maxStack larger : Nat} {state : FlowState}
    (h : body.Covers count maxStack state) (hle : maxStack ≤ larger) :
    body.Covers count larger state :=
  ⟨h.toBoxed, h.stack.imp_left fun hstack => Nat.le_trans hstack hle⟩

/-- **What an instruction passes on is covered**, but for the exception that
    handlers are entered with. -/
theorem Body.covers_successors {index : Label} {instruction : Instruction}
    {before after : FlowState} (hbefore : before.Boxed count) (hafter : after.Boxed count)
    {edges : List (Label × FlowState)}
    (h : body.successors index instruction before after = .ok edges) {edge : Label × FlowState}
    (hmem : edge ∈ edges) : body.Covers count (stackAfter instruction after) edge.2 := by
  refine ⟨boxed_successors hbefore hafter h hmem, ?_⟩
  rcases mem_successors_cases h hmem with hhandler | hbranch | ⟨-, rfl, -⟩
  · obtain ⟨handler, hh, -, locals, -, rfl⟩ := mem_handlerEdges.mp hhandler
    exact .inr ⟨List.ne_nil_of_mem hh, Nat.le_refl 1⟩
  · exact .inl (le_foldl_max (.tail _ (List.mem_map.mpr ⟨edge, hbranch, rfl⟩)))
  · exact .inl (le_foldl_max (.head _))

/-- The interpretation keeps states covered, and the heights of stacks. -/
theorem Body.invariant_covers (hclosed : body.Closed) (count : Nat) :
    body.Invariant (fun maxStack _ state => body.Covers count maxStack state)
      (fun entry state => entry.stack.length = state.stack.length) where
  mono hle h := h.mono hle
  merge h _ hmerge := by
    have hsize := stackSize_le_of_mergeState h.strict hmerge
    refine ⟨h.toBoxed.of_mergeState hmerge, ?_⟩
    exact h.stack.imp (Nat.le_trans hsize) fun h => ⟨h.1, Nat.le_trans hsize h.2⟩
  step hinstruction h hexecute hedges edge hmem := by
    have hafter := boxed_execute h.toBoxed hexecute
    refine ⟨lt_of_mem_successors hclosed hinstruction hedges hmem, ?_⟩
    exact (covers_successors h.toBoxed hafter hedges hmem).mono (Nat.le_max_right ..)
  self _ := rfl
  absorb h _ hmerge := by
    obtain ⟨hheight, -, rfl⟩ := mergeState_eq_ok h.strict hmerge
    exact (length_mergeValues _ _).trans hheight
  keep h _ hmerge hheight := by
    obtain ⟨-, -, rfl⟩ := mergeState_eq_ok h.strict hmerge
    exact (length_mergeValues _ _).trans hheight

theorem Body.Covers.of_empty {state : FlowState} (h : state.Boxed count) (hempty : state.stack = []) :
    body.Covers count 0 state :=
  ⟨h, .inl (by simp [FlowState.stackSize, hempty])⟩

end

/-! ## A finished interpretation -/

section
variable {hierarchy : Hierarchy} {owner : String} {code : Code} {initial : List VerificationType}
  {run : Run}

variable (hinside : JvmClass.Body.LabelsInside code)
  (hrun : Flow.run (bodyOf hierarchy owner code true) (entryState initial code true) = .ok run)
include hinside hrun

theorem covers_of_run :
    run.Finished (bodyOf hierarchy owner code true)
      (fun maxStack _ state =>
        (bodyOf hierarchy owner code true).Covers (localsOf initial code) maxStack state)
      (fun entry state => entry.stack.length = state.stack.length) (entryState initial code true) :=
  have hclosed := (labelsInRange_of_labelsInside hinside).closed
  finished_of_run (Body.invariant_covers hclosed _)
    (.of_empty (FlowState.boxed_entryState initial code) rfl) hrun

/-- The sizes cover a frame, but for the exception that a handler is entered
    with where nothing is unreachable. -/
theorem slots_of_mem_framesOf {frame : Frame} (h : frame ∈ framesOf code run) :
    VerificationType.slots frame.locals ≤ localsOf initial code ∧
      (VerificationType.slots frame.stack ≤ stackOf run ∨
        removeRanges code.exceptionTable (deadOf run) ≠ [] ∧ VerificationType.slots frame.stack ≤ 1) := by
  have hfinished := covers_of_run hinside hrun
  obtain ⟨label, -, -, hframe⟩ := mem_framesAt.mp h
  rcases frameAt_eq_some hframe with ⟨state, hentry, rfl⟩ | ⟨hdead, rfl⟩
  · have hcovers := hfinished.holds label state hentry
    refine ⟨hcovers.length ▸ FlowState.slots_frameLocals_le hcovers.inside, ?_⟩
    rw [FlowState.slots_frame_stack]
    rcases hcovers.stack with hle | ⟨hhandlers, hone⟩
    · exact .inl (Nat.le_trans hle (le_stackOf run))
    · by_cases hdead : deadOf run = []
      · obtain ⟨handler, hmem⟩ := List.exists_mem_of_ne_nil code.exceptionTable hhandlers
        rw [hdead, removeRanges_nil]
        exact .inr ⟨List.ne_nil_of_mem hmem, hone⟩
      · exact .inl (Nat.le_trans hone (stackOf_pos hdead))
  · exact ⟨Nat.zero_le _, .inl (stackOf_pos hdead)⟩

/-- Where nothing is unreachable, the frame of a handler shows an operand. -/
theorem exists_frame_of_handler (hdead : deadOf run = []) {handler : ExceptionHandler}
    (hmem : handler ∈ code.exceptionTable) :
    ∃ frame ∈ framesOf code run, 1 ≤ VerificationType.slots frame.stack := by
  have hfinished := covers_of_run hinside hrun
  obtain ⟨hlt, hstop, htarget⟩ := hinside.handlers handler hmem
  have hentries : run.entries.size = code.stop := by
    rw [hfinished.entries]
    simp [bodyOf, Code.stop]
  obtain ⟨state, hstate⟩ : ∃ state, run.entryAt handler.start = some state := by
    have hreached := deadRanges_eq_nil.mp hdead
    have hbound : handler.start < run.entries.size := by
      rw [hentries]
      exact Nat.lt_of_lt_of_le hlt hstop
    have hmem := List.mem_of_getElem? (l := (run.entries.map Option.isSome).toList)
      (by rw [Array.getElem?_toList, Array.getElem?_map, Array.getElem?_eq_getElem hbound]; rfl)
    obtain ⟨state, hstate⟩ := Option.isSome_iff_exists.mp (hreached _ hmem)
    refine ⟨state, ?_⟩
    rw [Run.entryAt, Array.getElem?_eq_getElem hbound, hstate]
    rfl
  obtain ⟨instruction, after, edges, -, -, hedges, hkeeps⟩ := hfinished.settled _ state hstate
  obtain ⟨next, -, hdone⟩ := Result.bind_eq_ok.mp hedges
  cases hdone
  have hedge : (handler.handler, _) ∈
      (bodyOf hierarchy owner code true).handlerEdges handler.start state after :=
    Body.mem_handlerEdges.mpr ⟨handler, hmem, ⟨Nat.le_refl _, hlt⟩, state.locals, .inl rfl, rfl⟩
  obtain ⟨entered, hentered, hone⟩ :=
    hkeeps _ (List.mem_append_left _ (List.mem_append_left _ hedge))
  refine ⟨entered.frame handler.handler, mem_framesAt.mpr ⟨handler.handler, ?_, ?_, ?_⟩, ?_⟩
  · rw [hdead, removeRanges_nil]
    exact List.mem_append_right _ (List.mem_map_of_mem hmem)
  · rw [hentries]
    exact htarget
  · unfold frameAt
    rw [show run.entries[handler.handler]?.join = some entered from hentered]
  · rw [FlowState.slots_frame_stack, show 1 = entered.stack.length from hone.symm]
    exact entered.length_le_stackSize

end

end Flow

/-- The sizes of an analysis cover a frame. -/
structure Analysis.Covers (a : Analysis) (frame : Frame) : Prop where
  locals : VerificationType.slots frame.locals ≤ a.maxLocals.toNat
  stack : VerificationType.slots frame.stack ≤ a.maxStack.toNat

/-- **The computed sizes cover the computed frames up to one operand**, and all
    of them exactly if no exception handler is left or something is pushed:
    the exception that a handler is entered with is not counted. -/
theorem covers_iff {hierarchy : Hierarchy} {owner : String} {method : MethodRecord} {code : Code}
    {a : Analysis} (hlabels : Body.checkLabels code = .ok ())
    (h : analyze hierarchy owner method code true = .ok a) :
    ∃ frames, a.frames = some frames ∧
      (∀ frame ∈ frames, VerificationType.slots frame.locals ≤ a.maxLocals.toNat ∧
        VerificationType.slots frame.stack ≤ max a.maxStack.toNat 1) ∧
      ((∀ frame ∈ frames, a.Covers frame) ↔ a.exceptionTable = [] ∨ 0 < a.maxStack) := by
  have hinside := Body.checkLabels_eq_ok.mp hlabels
  obtain ⟨initial, measured, -, hmeasured, hlocals, hstack, rfl⟩ := analyze_eq_ok h
  have hlocals : (UInt16.ofNat (localsOf initial code)).toNat = localsOf initial code := by
    rw [UInt16.toNat_ofNat']; omega
  have hstack : (UInt16.ofNat measured.1).toNat = measured.1 := by
    rw [UInt16.toNat_ofNat']; omega
  cases hmeasured with
  | empty hempty =>
    refine ⟨[], rfl, nofun, fun _ => .inl ?_, fun _ => nofun⟩
    refine List.eq_nil_iff_forall_not_mem.mpr fun handler hmem => ?_
    have := (hinside.handlers handler hmem).2.2
    rw [Code.stop, hempty] at this
    exact Nat.not_lt_zero _ this
  | sized hframes => exact nomatch hframes
  | @framed run _ _ hrun =>
    rw [withFrames_eq] at hstack ⊢
    dsimp only at hstack ⊢
    have hpositive : 0 < UInt16.ofNat (stackOf run) ↔ 0 < stackOf run := by
      rw [UInt16.lt_iff_toNat_lt, hstack]
      rfl
    refine ⟨framesOf code run, rfl, fun frame hmem => ?_, fun hall => ?_, fun hgood frame hmem => ?_⟩
    · obtain ⟨hfits, hcovered⟩ := slots_of_mem_framesOf hinside hrun hmem
      rw [hlocals, hstack]
      exact ⟨hfits, by omega⟩
    · -- Otherwise the frame of a handler has an operand for which there is no room.
      by_contra hbad
      rw [not_or, hpositive] at hbad
      have hdead : deadOf run = [] := by
        by_contra hdead
        exact hbad.2 (stackOf_pos hdead)
      have htable := hbad.1
      rw [hdead, removeRanges_nil] at htable
      obtain ⟨handler, hhandler⟩ := List.exists_mem_of_ne_nil _ htable
      obtain ⟨frame, hmem, hone⟩ := exists_frame_of_handler hinside hrun hdead hhandler
      have hcovered := (hall frame hmem).stack
      rw [hstack] at hcovered
      exact hbad.2 (Nat.lt_of_lt_of_le hone hcovered)
    · obtain ⟨hfits, hcovered⟩ := slots_of_mem_framesOf hinside hrun hmem
      refine ⟨by rw [hlocals]; exact hfits, ?_⟩
      rw [hstack]
      rcases hcovered with hle | ⟨hleft, hone⟩
      · exact hle
      · exact Nat.le_trans hone (hpositive.mp (hgood.resolve_left hleft))

/-! ## A body that pushes nothing -/

/-- A body that returns at once, with a handler that throws on what it
    catches. -/
def rethrowing : Code where
  maxStack := 0
  maxLocals := 0
  instructions := [.simple Opcode.returnVoid, .simple Opcode.athrow]
  exceptionTable := [⟨0, 1, 1, none⟩]
  lineNumbers := none
  localVariables := none
  localVariableTypes := none
  frames := none
  visibleTypeAnnotations := none
  invisibleTypeAnnotations := none
  attributes := []

/-- A static method with that body. -/
def rethrowingMethod : MethodRecord := ⟨⟨0x0009⟩, "m", "()V", [], some rethrowing, .absent, []⟩

theorem analyze_rethrowing : ∃ a, analyze .trivial "A" rethrowingMethod rethrowing true = .ok a ∧
    a.maxStack = 0 ∧ a.exceptionTable = rethrowing.exceptionTable :=
  Result.exists_ok (by decide +kernel)

/-- No stack is computed for the body, but there is a frame with an
    operand. -/
theorem covers_iff_rethrowing :
    Body.checkLabels rethrowing = .ok () ∧
      ∃ a frames, analyze .trivial "A" rethrowingMethod rethrowing true = .ok a ∧
        a.frames = some frames ∧ a.maxStack = 0 ∧ ¬ ∀ frame ∈ frames, a.Covers frame := by
  obtain ⟨a, ha, hstack, htable⟩ := analyze_rethrowing
  have hlabels : Body.checkLabels rethrowing = .ok () := rfl
  obtain ⟨frames, hframes, -, hcovered⟩ := covers_iff hlabels ha
  refine ⟨hlabels, a, frames, ha, hframes, hstack, fun hall => ?_⟩
  rcases hcovered.mp hall with hnone | hpushed
  · rw [htable] at hnone
    exact nomatch hnone
  · rw [hstack] at hpushed
    exact absurd hpushed (by decide)

end JvmClass
