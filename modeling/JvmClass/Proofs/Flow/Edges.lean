/-
  Where control goes on to.

  * `Flow.LabelsInRange`: branch targets and handlers are instructions of the
    body;
  * `Body.Edge` are the states that an instruction passes on, to the next
    instruction, to its branch targets and to the handlers around it;
    `mem_successors` says that a strict body has these successors and no others,
    but for calls of subroutines.
-/
import JvmClass.Flow.Worklist
import JvmClass.Proofs.Flow.Analysis

namespace JvmClass.Flow

/-- The branch targets and the handlers of a body are instructions of it, and
    handlers cover nothing behind it. -/
structure LabelsInRange (code : Code) : Prop where
  targets : ∀ i ∈ code.instructions, ∀ target ∈ i.targets, target < code.stop
  handlers : ∀ h ∈ code.exceptionTable, h.stop ≤ code.stop ∧ h.handler < code.stop

/-- The labels in a body lie inside it. -/
structure Body.Closed (body : Body) : Prop where
  targets : ∀ i ∈ body.instructions, ∀ target ∈ i.targets, target < body.instructions.size
  handlers : ∀ h ∈ body.handlers, h.handler < body.instructions.size

theorem LabelsInRange.closed {code : Code} (h : LabelsInRange code) {hierarchy : Hierarchy}
    {owner : String} {computeFrames : Bool} :
    (bodyOf hierarchy owner code computeFrames).Closed where
  targets i hi target htarget := h.targets i (by simpa [bodyOf] using hi) target htarget
  handlers handler hmem := (h.handlers handler hmem).2

/-- Whether an instruction calls a subroutine. -/
def IsCall (instruction : Instruction) : Prop :=
  instruction.opcode = Opcode.jsr ∨ instruction.opcode = Opcode.jsrW

namespace Body

variable {body : Body} {index : Label} {instruction : Instruction} {before after : FlowState}
  {edges : List (Label × FlowState)}

/-- The states that an instruction passes on, which changes the state `before`
    into `after`.  Handlers are entered with the locals before it and with those
    after it, and with what they catch. -/
inductive Edge (body : Body) (index : Label) (instruction : Instruction)
    (before after : FlowState) : Label → FlowState → Prop
  | next (h : instruction.endsBlock = false) :
    Edge body index instruction before after (index + 1) after
  | branch {target : Label} (h : target ∈ instruction.targets) :
    Edge body index instruction before after target after
  | handler {h : ExceptionHandler} {locals : List Value} (hmem : h ∈ body.handlers)
      (hstart : h.start ≤ index) (hstop : index < h.stop)
      (hlocals : locals = before.locals ∨ locals = after.locals) :
    Edge body index instruction before after h.handler
      { before with locals := locals, stack := [.object (h.catchType.getD throwableClass)] }

/-! ## Successors -/

/-- The handlers around an instruction are entered with the locals before it
    or after it, and with an exception. -/
theorem mem_handlerEdges {edge : Label × FlowState} :
    edge ∈ body.handlerEdges index before after ↔
      ∃ h ∈ body.handlers, (h.start ≤ index ∧ index < h.stop) ∧ ∃ locals,
        (locals = before.locals ∨ locals = after.locals) ∧
        edge = (h.handler, { before with
          locals := locals
          stack := [.object (h.catchType.getD throwableClass)] }) := by
  simp only [handlerEdges, List.mem_flatMap, List.mem_filter, Bool.and_eq_true, decide_eq_true_eq,
    List.mem_cons, List.not_mem_nil, or_false, and_assoc]
  refine exists_congr fun h => and_congr_right fun _ => and_congr_right fun _ =>
    and_congr_right fun _ => ⟨?_, ?_⟩
  · rintro (rfl | rfl)
    · exact ⟨before.locals, .inl rfl, rfl⟩
    · exact ⟨after.locals, .inr rfl, rfl⟩
  · rintro ⟨locals, rfl | rfl, rfl⟩
    · exact .inl rfl
    · exact .inr rfl

/-- The branch targets are entered with the stack after the instruction, on
    which `jsr` pushes. -/
theorem mem_branchEdges {edge : Label × FlowState} (h : edge ∈ branchEdges instruction after) :
    edge.1 ∈ instruction.targets ∧ ∃ stack, edge.2 = { after with stack := stack } := by
  unfold branchEdges at h
  split at h
  · split at h
    · obtain rfl := List.mem_singleton.mp h
      exact ⟨.head _, _, rfl⟩
    · obtain rfl := List.mem_singleton.mp h
      exact ⟨.head _, after.stack, rfl⟩
  · obtain ⟨target, htarget, rfl⟩ := List.mem_map.mp h
    exact ⟨htarget, after.stack, rfl⟩

/-- What a branch target is entered with is made in the same way of every state
    after the instruction: it is that state, or `jsr` pushes a return address. -/
theorem exists_pass_of_mem_branchEdges {edge : Label × FlowState}
    (h : edge ∈ branchEdges instruction after) :
    ∃ pass : FlowState → FlowState,
      (pass = id ∨ pass = fun other => { other with stack := .returnAddress :: other.stack }) ∧
        edge.2 = pass after ∧ ∀ other, (edge.1, pass other) ∈ branchEdges instruction other := by
  unfold branchEdges at h ⊢
  split at h
  · split at h
    next hcall =>
      rw [List.mem_singleton.mp h]
      exact ⟨_, .inr rfl, rfl, fun other => by simp [hcall]⟩
    next hcall =>
      rw [List.mem_singleton.mp h]
      exact ⟨id, .inl rfl, rfl, fun other => by simp [hcall]⟩
  · obtain ⟨target, htarget, rfl⟩ := List.mem_map.mp h
    exact ⟨id, .inl rfl, rfl, fun other => List.mem_map_of_mem htarget⟩

/-- The branch targets are entered with the state after the instruction, on
    whose stack `jsr` pushes a return address. -/
theorem eq_of_mem_branchEdges {edge : Label × FlowState} (h : edge ∈ branchEdges instruction after) :
    edge.2 = after ∨ edge.2 = { after with stack := .returnAddress :: after.stack } := by
  obtain ⟨pass, rfl | rfl, heq, -⟩ := exists_pass_of_mem_branchEdges h
  · exact .inl heq
  · exact .inr heq

/-- Other instructions than `jsr` pass on the state after them. -/
theorem branchEdges_eq_map (hcall : ¬ IsCall instruction) :
    branchEdges instruction after = instruction.targets.map fun target => (target, after) := by
  unfold branchEdges
  split
  next opcode target =>
    rw [if_neg (show ¬ (opcode = Opcode.jsr ∨ opcode = Opcode.jsrW) from hcall)]
    rfl
  next => rfl

theorem mem_nextEdge (h : body.nextEdge index instruction after = .ok edges)
    {edge : Label × FlowState} (hmem : edge ∈ edges) :
    instruction.endsBlock = false ∧ edge = (index + 1, after) ∧
      index + 1 < body.instructions.size := by
  unfold nextEdge at h
  by_cases hends : instruction.endsBlock
  · rw [if_pos hends] at h
    cases h
    cases hmem
  · rw [if_neg hends] at h
    by_cases hlt : index + 1 < body.instructions.size
    · rw [if_pos hlt] at h
      cases h
      exact ⟨by simpa using hends, List.mem_singleton.mp hmem, hlt⟩
    · rw [if_neg hlt] at h
      split at h
      next => cases h; cases hmem
      next => cases h

/-- The branch targets and the next instruction are successors. -/
theorem mem_successors_of_branch (h : body.successors index instruction before after = .ok edges)
    {edge : Label × FlowState} (hmem : edge ∈ branchEdges instruction after) : edge ∈ edges := by
  obtain ⟨next, -, hdone⟩ := Result.bind_eq_ok.mp h
  cases hdone
  exact List.mem_append_left _ (List.mem_append_right _ hmem)

theorem mem_successors_of_next (h : body.successors index instruction before after = .ok edges)
    (hends : instruction.endsBlock = false) (hlt : index + 1 < body.instructions.size) :
    (index + 1, after) ∈ edges := by
  obtain ⟨next, hnext, hdone⟩ := Result.bind_eq_ok.mp h
  cases hdone
  unfold nextEdge at hnext
  rw [hends, if_neg Bool.false_ne_true, if_pos hlt] at hnext
  cases hnext
  exact List.mem_append_right _ (.head _)

theorem nextEdge_of_strict (hstrict : body.lenient = false) (hends : instruction.endsBlock = false)
    (h : body.nextEdge index instruction after = .ok edges) : edges = [(index + 1, after)] := by
  unfold nextEdge at h
  rw [hends, if_neg Bool.false_ne_true] at h
  split at h
  next => cases h; rfl
  next =>
    rw [hstrict] at h
    cases h

/-- The successors are the handlers, the branch targets and what comes next. -/
theorem mem_successors_cases (h : body.successors index instruction before after = .ok edges)
    {edge : Label × FlowState} (hmem : edge ∈ edges) :
    edge ∈ body.handlerEdges index before after ∨ edge ∈ branchEdges instruction after ∨
      instruction.endsBlock = false ∧ edge = (index + 1, after) ∧
        index + 1 < body.instructions.size := by
  obtain ⟨next, hnext, hdone⟩ := Result.bind_eq_ok.mp h
  cases hdone
  rcases List.mem_append.mp hmem with hmem | hmem
  · rcases List.mem_append.mp hmem with hhandler | hbranch
    · exact .inl hhandler
    · exact .inr (.inl hbranch)
  · exact .inr (.inr (mem_nextEdge hnext hmem))

theorem lt_of_mem_successors (hclosed : body.Closed)
    (hinstruction : body.instructions[index]? = some instruction)
    (h : body.successors index instruction before after = .ok edges) {edge : Label × FlowState}
    (hmem : edge ∈ edges) : edge.1 < body.instructions.size := by
  rcases mem_successors_cases h hmem with hhandler | hbranch | ⟨-, rfl, hlt⟩
  · obtain ⟨handler, hh, -, locals, -, rfl⟩ := mem_handlerEdges.mp hhandler
    exact hclosed.handlers handler hh
  · have hi := Array.mem_of_getElem? hinstruction
    exact hclosed.targets instruction hi _ (mem_branchEdges hbranch).1
  · exact hlt

/-- **The successors of an instruction are what its edges lead to.** -/
theorem mem_successors (hstrict : body.lenient = false) (hcall : ¬ IsCall instruction)
    (h : body.successors index instruction before after = .ok edges) {target : Label}
    {state : FlowState} :
    (target, state) ∈ edges ↔ body.Edge index instruction before after target state := by
  constructor
  · intro hmem
    rcases mem_successors_cases h hmem with hhandler | hbranch | ⟨hends, heq, -⟩
    · obtain ⟨handler, hh, ⟨hstart, hstop⟩, locals, hlocals, heq⟩ := mem_handlerEdges.mp hhandler
      cases heq
      exact .handler hh hstart hstop hlocals
    · rw [branchEdges_eq_map hcall] at hbranch
      obtain ⟨_, htarget, heq⟩ := List.mem_map.mp hbranch
      cases heq
      exact .branch htarget
    · cases heq
      exact .next hends
  · obtain ⟨next, hnext, hdone⟩ := Result.bind_eq_ok.mp h
    cases hdone
    intro hedge
    cases hedge with
    | next hends =>
      obtain rfl := nextEdge_of_strict hstrict hends hnext
      exact List.mem_append_right _ (.head _)
    | branch htarget =>
      refine List.mem_append_left _ (List.mem_append_right _ ?_)
      rw [branchEdges_eq_map hcall]
      exact List.mem_map.mpr ⟨target, htarget, rfl⟩
    | handler hmem hstart hstop hlocals =>
      refine List.mem_append_left _ (List.mem_append_left _ ?_)
      exact mem_handlerEdges.mpr ⟨_, hmem, ⟨hstart, hstop⟩, _, hlocals, rfl⟩

theorem execute_eq_ok :
    body.execute index instruction before = .ok after ↔
      Flow.execute body.owner body.instructions index instruction before = .ok ((), after) := by
  unfold execute
  constructor
  · intro h
    split at h
    next hrun => cases h; exact hrun
    next => cases h
  · intro h
    rw [h]
    rfl

theorem execute_eq_error {cause : Invalid} :
    body.execute index instruction before = .error cause ↔
      ∃ inner, Flow.execute body.owner body.instructions index instruction before = .error inner ∧
        cause = .atInstruction index inner := by
  unfold execute
  constructor
  · intro h
    split at h
    next => cases h
    next inner hrun => cases h; exact ⟨inner, hrun, rfl⟩
  · rintro ⟨inner, hrun, rfl⟩
    rw [hrun]
    rfl

end Body

end JvmClass.Flow
