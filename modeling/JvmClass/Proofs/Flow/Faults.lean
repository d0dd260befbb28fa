/-
  What sizing a method body fails for.

  * `Run.loop_eq_error`: a loop fails for a visit that it comes to, or it does
    not end;
  * `invariant_loose`: without frames, the states of an interpretation are
    lenient, and everything in them is in range;
  * `Run.Sound.execute_of_visit`: a visit fails for its instruction alone, since
    what it passes on can always be merged;
  * `Instruction.FaultIn`: an instruction fails for itself, or it is `aaload` and
    the array that it finds has elements of no type;
  * `SizingFault` lists the causes, and `faults_of_analyze` says that there are
    no others.
-/
import JvmClass.Proofs.Flow.Tracks
import JvmClass.Proofs.Flow.Visits

namespace JvmClass

namespace Flow

/-! ## Runs -/

/-- A loop fails for a visit that it comes to, or it does not end. -/
theorem Run.loop_eq_error {body : Body} {fuel : Nat} {run : Run} {cause : Invalid}
    (h : loop body fuel run = .error cause) :
    cause = .noConvergence ∨
      ∃ taken later index queue, Visits body run taken later ∧
        later.queue.pop? = some (index, queue) ∧
        visit body index { later with queue := queue } = .error cause := by
  induction fuel generalizing run with
  | zero =>
    unfold loop at h
    split at h
    next => exact nomatch h
    next => cases h; exact .inl rfl
    next heq => exact nomatch heq
  | succ fuel ih =>
    unfold loop at h
    split at h
    next => exact nomatch h
    next heq => exact nomatch heq
    next index queue _ hpop heq =>
      obtain rfl := Nat.succ.inj heq
      rcases Result.bind_eq_error.mp h with hfail | ⟨next, hnext, hrest⟩
      · exact .inr ⟨[], run, index, queue, .nil, hpop, hfail⟩
      · refine (ih hrest).imp_right ?_
        rintro ⟨taken, later, last, left, hvisits, hlast, hfail⟩
        exact ⟨index :: taken, later, last, left, .cons hpop hnext hvisits, hlast, hfail⟩

theorem Body.exists_successors {body : Body} (h : body.lenient = true) (index : Label)
    (instruction : Instruction) (before after : FlowState) :
    ∃ edges, body.successors index instruction before after = .ok edges := by
  suffices hnext : ∃ next, body.nextEdge index instruction after = .ok next by
    obtain ⟨next, hnext⟩ := hnext
    exact ⟨_, Result.bind_eq_ok.mpr ⟨next, hnext, rfl⟩⟩
  unfold nextEdge
  rw [if_pos h]
  split
  next => exact ⟨_, rfl⟩
  next => split <;> exact ⟨_, rfl⟩

theorem Run.exists_pass {hierarchy : Hierarchy} {run : Run} {edge : Label × FlowState}
    (h : ∀ s, run.entryAt edge.1 = some s → s.lenient = true) :
    ∃ next, pass hierarchy run edge = .ok next := by
  obtain ⟨entries, queue, queued, maxStack⟩ := run
  obtain ⟨target, incoming⟩ := edge
  obtain ⟨⟨state, news⟩, hmerge⟩ :
      ∃ merged, mergeEntry hierarchy entries[target]?.join incoming = .ok merged := by
    cases hentry : entries[target]?.join with
    | none => exact ⟨_, rfl⟩
    | some existing =>
      rw [mergeEntry, mergeState_of_lenient (h existing hentry)]
      exact ⟨_, rfl⟩
  unfold pass
  simp only [hmerge]
  cases news with
  | false => exact ⟨_, rfl⟩
  | true =>
    dsimp only
    split <;> exact ⟨_, rfl⟩

section
variable {body : Body} {P : Nat → Label → FlowState → Prop} {A : FlowState → FlowState → Prop}
  {pending : Label → Prop}

theorem Run.Sound.exists_passes (hI : body.Invariant P A)
    (hlenient : ∀ {m i s}, P m i s → s.lenient = true) {run : Run}
    (hrun : run.Sound body P A pending) {edges : List (Label × FlowState)}
    (hedges : ∀ edge ∈ edges, edge.1 < body.instructions.size ∧ P run.maxStack edge.1 edge.2) :
    ∃ next, edges.foldlM (Run.pass body.hierarchy) run = .ok next := by
  induction edges generalizing run with
  | nil => exact ⟨run, rfl⟩
  | cons edge edges ih =>
    obtain ⟨⟨htarget, hholds⟩, hedges⟩ := List.forall_mem_cons.mp hedges
    obtain ⟨middle, hpass⟩ : ∃ middle, Run.pass body.hierarchy run edge = .ok middle :=
      Run.exists_pass fun s hs => hlenient (hrun.holds edge.1 s hs)
    obtain ⟨hmiddle, hgrows, -⟩ := hrun.pass hI hholds htarget hpass
    rw [← hgrows.maxStack] at hedges
    obtain ⟨next, hnext⟩ := ih hmiddle hedges
    exact ⟨next, Result.bind_eq_ok.mpr ⟨middle, hpass, hnext⟩⟩

theorem Run.Sound.visits (hI : body.Invariant P A) {run later : Run} {taken : List Label}
    (hvisits : Run.Visits body run taken later) (hrun : run.Sound body P A fun _ => False) :
    later.Sound body P A fun _ => False := by
  induction hvisits with
  | nil => exact hrun
  | cons hpop hvisit _ ih => exact ih (hrun.visit hI hpop hvisit).1

/-- **A visit in a lenient body fails for its instruction alone.** -/
theorem Run.Sound.execute_of_visit (hI : body.Invariant P A) (hbody : body.lenient = true)
    (hlenient : ∀ {m i s}, P m i s → s.lenient = true) {run : Run}
    (hrun : run.Sound body P A fun _ => False) {index : Label} {queue : Queue}
    (hpop : run.queue.pop? = some (index, queue)) {cause : Invalid}
    (h : Run.visit body index { run with queue := queue } = .error cause) :
    ∃ before instruction, run.entryAt index = some before ∧ P run.maxStack index before ∧
      body.instructions[index]? = some instruction ∧
      body.execute index instruction before = .error cause := by
  have htaken := hrun.take hpop
  unfold Run.visit at h
  dsimp only at h
  split at h
  next before instruction hbefore hinstruction =>
    have hholds := hrun.holds index before hbefore
    refine ⟨before, instruction, hbefore, hholds, hinstruction, ?_⟩
    rcases Result.bind_eq_error.mp h with hfail | ⟨after, hexecute, hrest⟩
    · exact hfail
    -- What the instruction passes on can be merged into the entries.
    obtain ⟨edges, hedges⟩ := Body.exists_successors hbody index instruction before after
    rw [hedges] at hrest
    have hraised := htaken.raise hI (Nat.le_max_left run.maxStack (Body.stackAfter instruction after))
    obtain ⟨next, hnext⟩ := hraised.exists_passes hI hlenient
      (hI.step hinstruction hholds hexecute hedges)
    exact nomatch hnext.symm.trans hrest
  next => exact nomatch h

end

/-- The interpretation of a body comes to run the instruction at `index` in the
    state `before`. -/
def Comes (body : Body) (initial : FlowState) (index : Label) (before : FlowState) : Prop :=
  ∃ taken run queue, Run.Visits body (.start body.instructions.size initial) taken run ∧
    run.queue.pop? = some (index, queue) ∧ run.entryAt index = some before

end Flow

open JvmClass.Flow JvmClass.FlowStep

/-! ## Instructions -/

/-- A cause for which an instruction fails in the state `before`. -/
inductive Instruction.FaultIn (before : FlowState) : Instruction → Invalid → Prop
  | own {i : Instruction} {cause : Invalid} (h : i.Fault cause) : FaultIn before i cause
  /-- `aaload` finds, below an index, an array class with elements of no type. -/
  | element {name : String} {cause : Malformed} (hname : before.stack[1]? = some (.object name))
      (harray : isArrayName name = true)
      (h : FieldType.ofDescriptor (String.ofList name.toList.tail) = .error cause) :
    FaultIn before (.simple 0x32) (.badDescriptor cause)

theorem Value.element_eq_error {array : Value} {cause : Malformed}
    (h : array.element = .error cause) :
    ∃ name, array = .object name ∧ isArrayName name = true ∧
      FieldType.ofDescriptor (String.ofList name.toList.tail) = .error cause := by
  unfold Value.element at h
  split at h
  next name =>
    split at h
    next harray => exact ⟨name, rfl, harray, Result.map_eq_error.mp h⟩
    next => exact nomatch h
  next => exact nomatch h
  next => exact nomatch h

theorem FlowState.getElem?_of_operand {state : FlowState} {n : Nat} {name : String}
    (h : state.operand n = .object name) : state.stack[n]? = some (.object name) := by
  unfold FlowState.operand Value.nth at h
  cases hget : state.stack[n]? with
  | none => simp [hget] at h
  | some value => simpa [hget] using h

theorem Instruction.FaultIn.of_aaload {owner : String} {instructions : Array Instruction}
    {index : Label} {before : FlowState} (hlenient : before.lenient = true) {cause : Invalid}
    (h : Flow.execute owner instructions index (.simple 0x32) before = .error cause) :
    FaultIn before (.simple 0x32) cause := by
  have haaload := (aaload_of_lenient hlenient).symm.trans h
  cases helement : (before.operand 1).element with
  | ok element => rw [helement] at haaload; exact nomatch haaload
  | error malformed =>
    rw [helement] at haaload
    cases haaload
    obtain ⟨name, hname, harray, hcause⟩ := Value.element_eq_error helement
    exact .element (FlowState.getElem?_of_operand hname) harray hcause

namespace Flow

/-! ## Loose states -/

section
variable {hierarchy : Hierarchy} {owner : String} {code : Code} {count : Nat}

/-- Handlers are entered with an exception, subroutines with a return address. -/
theorem loose_successors {instructions : Array Instruction} {body : Body} {index : Label}
    {instruction : Instruction} {before after : FlowState}
    (hbefore : before.Loose instructions count) (hafter : after.Loose instructions count)
    {edges : List (Label × FlowState)}
    (h : body.successors index instruction before after = .ok edges) {edge : Label × FlowState}
    (hmem : edge ∈ edges) : edge.2.Loose instructions count := by
  have hcaught (name : String) : ∀ v ∈ [Value.object name], v.Named instructions :=
    List.forall_mem_singleton.mpr (Value.plain_object name).named
  rcases Body.mem_successors_cases h hmem with hhandler | hbranch | ⟨-, rfl, -⟩
  · obtain ⟨handler, -, -, locals, hlocals, rfl⟩ := Body.mem_handlerEdges.mp hhandler
    rcases hlocals with rfl | rfl
    · exact { hbefore with stack := hcaught _ }
    · exact ⟨hbefore.lenient, hafter.length, hafter.locals, hcaught _⟩
  · rcases Body.eq_of_mem_branchEdges hbranch with heq | heq
    · rw [heq]
      exact hafter
    · rw [heq]
      exact { hafter with
        stack := List.forall_mem_cons.mpr ⟨Value.Plain.named nofun, hafter.stack⟩ }
  · exact hafter

theorem localsTouched_le {initial : List VerificationType} {i : Instruction}
    (h : i ∈ code.instructions) : localsTouched i ≤ localsOf initial code :=
  le_foldl_max (.tail _ (List.mem_map_of_mem h))

/-- **An instruction of a body keeps states loose**, or it fails for itself or
    for the array that it finds. -/
theorem loose_execute {initial : List VerificationType} {index : Label} {i : Instruction}
    (hi : (bodyOf hierarchy owner code false).instructions[index]? = some i) {before : FlowState}
    (hbefore : before.Loose code.instructions.toArray (localsOf initial code)) :
    (∀ after, (bodyOf hierarchy owner code false).execute index i before = .ok after →
        after.Loose code.instructions.toArray (localsOf initial code)) ∧
      ∀ cause, (bodyOf hierarchy owner code false).execute index i before = .error cause →
        ∃ inner, i.FaultIn before inner ∧ cause = .atInstruction index inner := by
  have hget : code.instructions.toArray[index]? = some i := hi
  have hslots : localsTouched i ≤ localsOf initial code :=
    localsTouched_le (by simpa using Array.mem_of_getElem? hget)
  obtain ⟨hok, herror⟩ := tries_execute owner hget hslots before hbefore
  constructor
  · intro after hafter
    have hrun := Body.execute_eq_ok.mp hafter
    exact (hok () after hrun).1
  · intro cause hcause
    obtain ⟨inner, hinner, rfl⟩ := Body.execute_eq_error.mp hcause
    refine ⟨inner, ?_, rfl⟩
    rcases herror inner hinner with hfault | rfl
    · exact .own hfault
    · exact .of_aaload hbefore.lenient hinner

theorem invariant_loose (hlabels : LabelsInRange code) (initial : List VerificationType) :
    (bodyOf hierarchy owner code false).Invariant
      (fun _ _ state => state.Loose code.instructions.toArray (localsOf initial code))
      (fun _ _ => True) where
  mono _ h := h
  merge hs hw hmerge := hs.of_mergeState hw hmerge
  step hinstruction hbefore hexecute hedges edge hmem := by
    have hafter := (loose_execute hinstruction hbefore).1 _ hexecute
    exact ⟨Body.lt_of_mem_successors hlabels.closed hinstruction hedges hmem,
      loose_successors hbefore hafter hedges hmem⟩
  self _ := trivial
  absorb _ _ _ := trivial
  keep _ _ _ _ := trivial

/-- **An interpretation without frames fails at an instruction that it comes to**,
    or it does not end. -/
theorem fault_of_run (hlabels : LabelsInRange code) {access : Access} {name descriptor : String}
    {initial : List VerificationType} (hinitial : initialLocals owner access name descriptor = .ok initial)
    {cause : Invalid}
    (h : Flow.run (bodyOf hierarchy owner code false) (entryState initial code false) =
      .error cause) :
    cause = .noConvergence ∨ ∃ index before i inner,
      Comes (bodyOf hierarchy owner code false) (entryState initial code false) index before ∧
      code.instructions[index]? = some i ∧ i.FaultIn before inner ∧
      cause = .atInstruction index inner := by
  have hI : (bodyOf hierarchy owner code false).Invariant _ _ := invariant_loose hlabels initial
  have hentry : (entryState initial code false).Loose code.instructions.toArray
      (localsOf initial code) :=
    FlowState.loose_entryState hinitial code
  refine (Run.loop_eq_error h).imp_right ?_
  rintro ⟨taken, run, index, queue, hvisits, hpop, hvisit⟩
  have hrun := (Run.sound_start hentry).visits hI hvisits
  obtain ⟨before, i, hentered, hbefore, hi, hexecute⟩ :=
    hrun.execute_of_visit hI rfl FlowState.Loose.lenient hpop hvisit
  obtain ⟨inner, hinner, rfl⟩ := (loose_execute hi hbefore).2 cause hexecute
  have hcomes : Comes (bodyOf hierarchy owner code false) (entryState initial code false) index
      before := ⟨taken, run, queue, hvisits, hpop, hentered⟩
  exact ⟨index, before, i, inner, hcomes, by simpa [bodyOf] using hi, hinner, rfl⟩

end

/-! ## Analyses -/

/-- Why a method body cannot be sized. -/
inductive SizingFault (hierarchy : Hierarchy) (owner : String) (method : MethodRecord)
    (code : Code) : Invalid → Prop
  | descriptor {cause : Malformed} (h : MethodType.ofDescriptor method.descriptor = .error cause) :
    SizingFault hierarchy owner method code (.badDescriptor cause)
  | locals {initial : List VerificationType}
      (hinitial : initialLocals owner method.access method.name method.descriptor = .ok initial)
      (h : 0xFFFF < localsOf initial code) :
    SizingFault hierarchy owner method code (.localSlots (localsOf initial code))
  | instruction {initial : List VerificationType} {index : Label} {before : FlowState}
      {i : Instruction} {cause : Invalid}
      (hinitial : initialLocals owner method.access method.name method.descriptor = .ok initial)
      (hcomes : Comes (bodyOf hierarchy owner code false) (entryState initial code false) index
        before)
      (hi : code.instructions[index]? = some i) (h : i.FaultIn before cause) :
    SizingFault hierarchy owner method code (.atInstruction index cause)
  | limit {initial : List VerificationType}
      (hinitial : initialLocals owner method.access method.name method.descriptor = .ok initial)
      (hrun : Flow.run (bodyOf hierarchy owner code false) (entryState initial code false) =
        .error .noConvergence) :
    SizingFault hierarchy owner method code .noConvergence
  | stack {initial : List VerificationType} {run : Run}
      (hinitial : initialLocals owner method.access method.name method.descriptor = .ok initial)
      (hrun : Flow.run (bodyOf hierarchy owner code false) (entryState initial code false) = .ok run)
      (h : 0xFFFF < run.maxStack) :
    SizingFault hierarchy owner method code (.stackSlots run.maxStack)

/-- Only the descriptor of a method can keep its locals on entry from being
    known. -/
theorem initialLocals_eq_error {owner : String} {access : Access} {name descriptor : String}
    {cause : Malformed} (h : initialLocals owner access name descriptor = .error cause) :
    MethodType.ofDescriptor descriptor = .error cause := by
  rcases Result.bind_eq_error.mp h with hfail | ⟨type, -, hrest⟩
  · exact hfail
  · dsimp only at hrest
    split at hrest
    next => exact nomatch hrest
    next => split at hrest <;> exact nomatch hrest

theorem sizingFault_of_analyzeBody {hierarchy : Hierarchy} {owner : String} {method : MethodRecord}
    {code : Code} (hlabels : LabelsInRange code) {cause : Invalid}
    (h : analyzeBody hierarchy owner method code false = .error cause) :
    SizingFault hierarchy owner method code cause := by
  rcases analyzeBody_eq_error h with ⟨malformed, hmalformed, rfl⟩ | ⟨initial, hinitial, hcause⟩
  · exact .descriptor (initialLocals_eq_error hmalformed)
  rcases hcause with ⟨hlocals, rfl⟩ | ⟨hframes, -⟩ | ⟨-, hrun⟩ | ⟨measured, hmeasured, hstack, rfl⟩
  · exact .locals hinitial hlocals
  · exact nomatch hframes
  · rcases fault_of_run hlabels hinitial hrun with
      rfl | ⟨index, before, i, inner, hcomes, hi, hinner, rfl⟩
    · exact .limit hinitial hrun
    · exact .instruction hinitial hcomes hi hinner
  · cases hmeasured with
    | empty => exact absurd hstack (Nat.not_lt_zero _)
    | framed hframes => exact nomatch hframes
    | sized _ _ hrun => exact .stack hinitial hrun hstack

end Flow

open JvmClass.Flow

/-- The causes for which code does not verify. -/
def Invalid.BreaksFrames : Invalid → Prop
  | .atInstruction _ cause => cause.BreaksFrames
  | .stackUnderflow | .notOneSlot _ | .localRange _ | .stackHeights .. | .entrySizes .. | .notNew
  | .fallsOff | .subroutine => True
  | _ => False

theorem Instruction.FaultIn.not_breaksFrames {before : FlowState} {i : Instruction} {cause : Invalid}
    (h : i.FaultIn before cause) : ¬ cause.BreaksFrames := by
  cases h with
  | own h => cases h <;> exact id
  | element => exact id

theorem Flow.SizingFault.not_breaksFrames {hierarchy : Hierarchy} {owner : String}
    {method : MethodRecord} {code : Code} {cause : Invalid}
    (h : SizingFault hierarchy owner method code cause) : ¬ cause.BreaksFrames := by
  cases h with
  | instruction _ _ _ hfault => exact hfault.not_breaksFrames
  | descriptor | locals | limit | stack => exact id

/-- **Sizing a method body leaves the code alone and fails for listed causes
    only**: a descriptor that does not parse, an instruction that is none of its
    kind, too many slots or too many steps, but never because the code does not
    verify. -/
theorem faults_of_analyze {hierarchy : Hierarchy} {owner : String} {method : MethodRecord}
    {code : Code} (hlabels : LabelsInRange code) :
    (∀ a, analyze hierarchy owner method code false = .ok a →
      a.instructions = code.instructions ∧ a.exceptionTable = code.exceptionTable ∧
        a.frames = none) ∧
      ∀ cause, analyze hierarchy owner method code false = .error cause →
        ∃ inner, cause = .inMethod method.name method.descriptor inner ∧
          SizingFault hierarchy owner method code inner ∧ ¬ inner.BreaksFrames := by
  refine ⟨fun a ha => ?_, fun cause hcause => ?_⟩
  · obtain ⟨initial, measured, -, hmeasured, -, -, rfl⟩ := analyze_eq_ok ha
    cases hmeasured with
    | empty hempty => exact ⟨hempty.symm, rfl, rfl⟩
    | sized => exact ⟨rfl, rfl, rfl⟩
    | framed hframes => exact nomatch hframes
  · obtain ⟨inner, hinner, rfl⟩ := Result.mapError_eq_error.mp hcause
    have hfault := sizingFault_of_analyzeBody hlabels hinner
    exact ⟨inner, rfl, hfault, hfault.not_breaksFrames⟩

/-! ## A body that does not verify -/

/-- A body that pops from the empty stack and runs off the end, past an
    operation code that is not assigned. -/
def underflowing : Code where
  maxStack := 0
  maxLocals := 0
  instructions := [.simple 0x57, .simple 0xfe]
  exceptionTable := []
  lineNumbers := none
  localVariables := none
  localVariableTypes := none
  frames := none
  visibleTypeAnnotations := none
  invisibleTypeAnnotations := none
  attributes := []

/-- A static method with that body. -/
def underflowingMethod : MethodRecord :=
  ⟨⟨0x0009⟩, "m", "()V", [], some underflowing, .absent, []⟩

theorem labelsInRange_underflowing : LabelsInRange underflowing :=
  ⟨by decide, by decide⟩

theorem analyze_underflowing :
    analyze .trivial "A" underflowingMethod underflowing false =
      .error (.inMethod "m" "()V" (.atInstruction 1 (.takesOperands 0xfe))) := by
  have hrun : (match analyze .trivial "A" underflowingMethod underflowing false with
      | .error (.inMethod "m" "()V" (.atInstruction 1 (.takesOperands 0xfe))) => true
      | _ => false) = true := by decide +kernel
  split at hrun
  next heq => exact heq
  next => exact nomatch hrun

/-- What fails is the operation code, and nothing before it. -/
theorem faults_of_analyze_underflowing :
    LabelsInRange underflowing ∧
      ∃ inner, analyze .trivial "A" underflowingMethod underflowing false =
          .error (.inMethod "m" "()V" inner) ∧
        SizingFault .trivial "A" underflowingMethod underflowing inner ∧ ¬ inner.BreaksFrames := by
  have hlabels := labelsInRange_underflowing
  obtain ⟨inner, heq, hfault, hsound⟩ := (faults_of_analyze hlabels).2 _ analyze_underflowing
  cases heq
  exact ⟨hlabels, _, analyze_underflowing, hfault, hsound⟩

end JvmClass
