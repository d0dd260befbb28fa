/-
  Which instructions are reached.

  * `Flow.Reachable`: control may get from the first instruction to another one,
    along next instructions, branches and handlers;
  * `Value.Made`: an object that is not initialized comes from a `new` that is
    reachable; instructions keep that (`strictInvariant_made`), so does merging,
    and it is so on entry;
  * `Explored`: in the end, the instructions that were reached are the reachable
    ones (`explored_of_run`).
-/
import JvmClass.Proofs.Flow.Edges
import JvmClass.Proofs.Flow.Merge
import JvmClass.Proofs.Flow.Strict
import JvmClass.Proofs.Flow.Worklist

namespace JvmClass

namespace Flow

/-- Control may go on from one label to another: to the next instruction, to a
    branch target or to a handler. -/
inductive Leads (code : Code) (index : Label) : Label → Prop
  | next {instruction : Instruction} (h : code.instructions[index]? = some instruction)
      (hgoes : instruction.endsBlock = false) : Leads code index (index + 1)
  | branch {instruction : Instruction} {target : Label}
      (h : code.instructions[index]? = some instruction) (htarget : target ∈ instruction.targets) :
    Leads code index target
  | handler {h : ExceptionHandler} (hmem : h ∈ code.exceptionTable) (hstart : h.start ≤ index)
      (hstop : index < h.stop) : Leads code index h.handler

/-- Control may get from the first instruction to a label. -/
inductive Reachable (code : Code) : Label → Prop
  | start : Reachable code 0
  | step {index target : Label} (h : Reachable code index) (hleads : Leads code index target) :
    Reachable code target

theorem leads_iff_edge {hierarchy : Hierarchy} {owner : String} {code : Code} {index : Label}
    {instruction : Instruction} (h : code.instructions[index]? = some instruction)
    {before after : FlowState} {target : Label} :
    Leads code index target ↔
      ∃ state, (bodyOf hierarchy owner code true).Edge index instruction before after target
        state := by
  constructor
  · intro hleads
    cases hleads with
    | next h' hgoes =>
      cases h.symm.trans h'
      exact ⟨after, .next hgoes⟩
    | branch h' htarget =>
      cases h.symm.trans h'
      exact ⟨after, .branch htarget⟩
    | handler hmem hstart hstop => exact ⟨_, .handler hmem hstart hstop (.inl rfl)⟩
  · rintro ⟨state, hedge⟩
    cases hedge with
    | next hgoes => exact .next h hgoes
    | branch htarget => exact .branch h htarget
    | handler hmem hstart hstop => exact .handler hmem hstart hstop

end Flow

open JvmClass.Flow

/-! ## Objects that are not initialized -/

/-- An object that is not initialized comes from a reachable `new`. -/
def Value.Made (code : Code) (value : Value) : Prop :=
  ∀ label, value = .uninitialized label →
    Reachable code label ∧ ∃ name, code.instructions[label]? = some (.type Opcode.new name)

theorem Value.plain_object (name : String) : (Value.object name).Plain := nofun

theorem Value.Plain.made {code : Code} {value : Value} (h : value.Plain) : value.Made code :=
  fun label heq => absurd heq (h label)

theorem Flow.mergeValue_cases (hierarchy : Hierarchy) (v w : Value) :
    mergeValue hierarchy v w = v ∨ (mergeValue hierarchy v w).Plain := by
  unfold mergeValue
  split
  next => exact .inl rfl
  next =>
    split
    next => exact .inr nofun
    next => exact .inr nofun
    next => split <;> exact .inr nofun
    next => exact .inr nofun

theorem Value.Made.mergeValue {code : Code} {hierarchy : Hierarchy} (v w : Value)
    (h : v.Made code) : (Flow.mergeValue hierarchy v w).Made code := by
  rcases mergeValue_cases hierarchy v w with heq | hplain
  · rw [heq]
    exact h
  · exact hplain.made

namespace FlowState

/-- In a strict state, objects that are not initialized come from reachable
    `new` instructions. -/
structure Made (code : Code) (state : FlowState) : Prop where
  strict : state.lenient = false
  locals : ∀ v ∈ state.locals, v.Made code
  stack : ∀ v ∈ state.stack, v.Made code

theorem mem_storeLocal {locals : List Value} {index : Nat} {value v : Value} {wide : Bool}
    (h : v ∈ storeLocal locals index value wide) : v ∈ locals ∨ v = value ∨ v = .top := by
  have hset {locals : List Value} {i : Nat} (h : v ∈ locals.set i .top) : v ∈ locals ∨ v = .top :=
    List.mem_or_eq_of_mem_set h
  have hvalue {locals : List Value} (h : v ∈ locals.set index value) : v ∈ locals ∨ v = value :=
    List.mem_or_eq_of_mem_set h
  have hhalved : v ∈ (if 0 < index ∧ (locals[index - 1]?.map Value.isWide) = some true
      then locals.set (index - 1) .top else locals) → v ∈ locals ∨ v = .top := by
    intro h
    split at h
    next => exact hset h
    next => exact .inl h
  have hstored : v ∈ List.set (if 0 < index ∧ (locals[index - 1]?.map Value.isWide) = some true
      then locals.set (index - 1) .top else locals) index value →
        v ∈ locals ∨ v = value ∨ v = .top := by
    intro h
    rcases hvalue h with h | h
    · exact (hhalved h).imp_right .inr
    · exact .inr (.inl h)
  unfold storeLocal at h
  dsimp only at h
  by_cases hwide : wide = true
  · rw [if_pos hwide] at h
    rcases hset h with h | h
    · exact hstored h
    · exact .inr (.inr h)
  · rw [if_neg hwide] at h
    exact hstored h

/-- Instructions keep where objects that are not initialized come from. -/
theorem strictInvariant_made (code : Code) :
    FlowStep.StrictInvariant (Made code) (Value.Made code) where
  strict _ h := h.strict
  locals _ h := h.locals
  operands _ h := h.stack
  plain _ h := h.made
  stack _ _ h hstack := ⟨h.strict, h.locals, hstack⟩
  store _ _ _ h hvalue _ := by
    refine ⟨h.strict, fun v hv => ?_, h.stack⟩
    rcases mem_storeLocal hv with hold | rfl | rfl
    · exact h.locals v hold
    · exact hvalue
    · exact Value.Plain.made nofun
  replace s before name h _ := by
    have hreplaced {values : List Value} (hvalues : ∀ v ∈ values, v.Made code) :
        ∀ v ∈ values.map fun v => if v = before then Value.object name else v, v.Made code := by
      intro v hv
      obtain ⟨w, hw, rfl⟩ := List.mem_map.mp hv
      split
      next => exact Value.Plain.made nofun
      next => exact hvalues w hw
    exact ⟨h.strict, hreplaced h.locals, hreplaced h.stack⟩

theorem Made.of_mergeState {code : Code} {hierarchy : Hierarchy}
    {existing incoming merged : FlowState} (h : existing.Made code)
    (hmerge : mergeState hierarchy existing incoming = .ok merged) : merged.Made code := by
  have hvalue (a b : Value) (ha : a.Made code) : (mergeValue hierarchy a b).Made code :=
    ha.mergeValue a b
  obtain ⟨-, -, rfl⟩ := mergeState_eq_ok h.strict hmerge
  exact ⟨h.strict, forall_mem_mergeValues hvalue h.locals _, forall_mem_mergeValues hvalue h.stack _⟩

theorem plain_entryState {owner : String} {access : Access} {name descriptor : String}
    {initial : List VerificationType} (h : initialLocals owner access name descriptor = .ok initial)
    (code : Code) (computeFrames : Bool) :
    ∀ v ∈ (entryState initial code computeFrames).locals, v.Plain := by
  have hinitial : ∀ type ∈ initial, (Value.known type).Plain := by
    obtain ⟨type, -, hdone⟩ := Result.bind_eq_ok.mp h
    have hparameters : ∀ t ∈ type.parameters.map FieldType.verificationType,
        (Value.known t).Plain := by
      intro t ht
      obtain ⟨parameter, -, rfl⟩ := List.mem_map.mp ht
      exact Value.plain_ofType parameter
    dsimp only at hdone
    split at hdone
    next => cases hdone; exact hparameters
    next =>
      split at hdone
      next => cases hdone; exact List.forall_mem_cons.mpr ⟨nofun, hparameters⟩
      next => cases hdone; exact List.forall_mem_cons.mpr ⟨nofun, hparameters⟩
  intro v hv
  rcases List.mem_append.mp hv with hslot | htop
  · obtain ⟨type, htype, hv⟩ := List.mem_flatMap.mp hslot
    split at hv
    next =>
      rcases List.mem_cons.mp hv with rfl | hv
      · exact hinitial type htype
      · rw [List.mem_singleton.mp hv]
        nofun
    next =>
      rw [List.mem_singleton.mp hv]
      exact hinitial type htype
  · rw [(List.mem_replicate.mp htop).2]
    nofun

theorem made_entryState {owner : String} {access : Access} {name descriptor : String}
    {initial : List VerificationType} (h : initialLocals owner access name descriptor = .ok initial)
    (code : Code) : (entryState initial code true).Made code :=
  ⟨rfl, fun v hv => (plain_entryState h code true v hv).made, nofun⟩

end FlowState

/-! ## The interpretation -/

namespace Flow

section
variable {hierarchy : Hierarchy} {owner : String} {code : Code}

/-- Only reachable instructions are entered, with objects from reachable `new`
    instructions. -/
theorem invariant_reachable (hlabels : LabelsInRange code)
    (hcalls : ∀ i ∈ code.instructions, ¬ IsCall i) :
    (bodyOf hierarchy owner code true).Invariant
      (fun _ index state => Reachable code index ∧ state.Made code) (fun _ _ => True) where
  mono _ h := h
  merge h _ hmerge := ⟨h.1, h.2.of_mergeState hmerge⟩
  step {m i instruction s after edges} hinstruction h hexecute hedges edge hmem := by
    obtain ⟨target, passed⟩ := edge
    obtain ⟨hreachable, hmade⟩ := h
    have hlt := Body.lt_of_mem_successors hlabels.closed hinstruction hedges hmem
    have hget : code.instructions[i]? = some instruction := by
      simpa [bodyOf] using hinstruction
    have hcall := hcalls instruction (List.mem_of_getElem? hget)
    have hedge := (Body.mem_successors rfl hcall hedges).mp hmem
    have hnew : ∀ name, instruction = .type Opcode.new name → (Value.uninitialized i).Made code := by
      rintro name rfl label heq
      cases heq
      exact ⟨hreachable, name, hget⟩
    have hafter : after.Made code :=
      (keeps_execute (FlowState.strictInvariant_made code) _ _ i instruction hnew s _ _ hmade
        (Body.execute_eq_ok.mp hexecute)).1
    refine ⟨hlt, hreachable.step ((leads_iff_edge hget).mpr ⟨_, hedge⟩), ?_⟩
    cases hedge with
    | next => exact hafter
    | branch => exact hafter
    | handler _ _ _ hlocals =>
      have hcaught (name : String) : ∀ v ∈ [Value.object name], v.Made code :=
        List.forall_mem_singleton.mpr (Value.plain_object name).made
      rcases hlocals with rfl | rfl
      · exact ⟨hmade.strict, hmade.locals, hcaught _⟩
      · exact ⟨hmade.strict, hafter.locals, hcaught _⟩
  self _ := trivial
  absorb _ _ _ := trivial
  keep _ _ _ _ := trivial

variable {method : MethodRecord} {initial : List VerificationType} {run : Run}

/-- What is known of the entries of a body without calls of subroutines. -/
structure Explored (code : Code) (run : Run) : Prop where
  size : run.entries.size = code.stop
  /-- **The instructions that were reached are the reachable ones.** -/
  reached : ∀ index, (∃ state, run.entryAt index = some state) ↔ Reachable code index
  made : ∀ index state, run.entryAt index = some state → state.Made code

theorem explored_of_run (hlabels : LabelsInRange code) (hnonempty : code.instructions ≠ [])
    (hcalls : ∀ i ∈ code.instructions, ¬ IsCall i)
    (hentry : initialLocals owner method.access method.name method.descriptor = .ok initial)
    (hrun : Flow.run (bodyOf hierarchy owner code true) (entryState initial code true) = .ok run) :
    Explored code run := by
  have hfinished := finished_of_run (invariant_reachable hlabels hcalls)
    ⟨.start, FlowState.made_entryState hentry code⟩ hrun
  refine ⟨by rw [hfinished.entries]; rfl, fun index => ⟨?_, ?_⟩, ?_⟩
  · rintro ⟨state, hstate⟩
    exact (hfinished.holds index state hstate).1
  · intro hreachable
    induction hreachable with
    | start =>
      obtain ⟨state, hstate, -⟩ := hfinished.start (List.length_pos_iff.mpr hnonempty)
      exact ⟨state, hstate⟩
    | @step index target _ hleads ih =>
      -- What was reached is settled, so that its successors were entered.
      obtain ⟨before, hbefore⟩ := ih
      obtain ⟨instruction, after, edges, hinstruction, -, hedges, hkeeps⟩ :=
        hfinished.settled index before hbefore
      have hget : code.instructions[index]? = some instruction := by
        simpa [bodyOf] using hinstruction
      have hcall := hcalls instruction (List.mem_of_getElem? hget)
      obtain ⟨passed, hedge⟩ := (leads_iff_edge hget).mp hleads
      obtain ⟨state, hstate, -⟩ := hkeeps _ ((Body.mem_successors rfl hcall hedges).mpr hedge)
      exact ⟨state, hstate⟩
  · intro index state hstate
    exact (hfinished.holds index state hstate).2

end

end Flow

end JvmClass
