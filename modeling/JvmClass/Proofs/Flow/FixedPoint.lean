/-
  The analysis ends in a fixed point.

  * `Run.FixedPoint`: the first instruction absorbs the state on entry, and
    every instruction that was reached runs and is absorbed by its successors;
  * `fixedPoint_of_analyze`: with frames, an analysis that succeeds has come to
    one, if classes have a join.
-/
import JvmClass.Proofs.Flow.Frames
import JvmClass.Proofs.Flow.Join
import JvmClass.Proofs.Flow.Locals

namespace JvmClass

namespace Flow

theorem Body.invariant_absorbs {body : Body} (hjoin : body.hierarchy.IsJoin)
    (hclosed : body.Closed) (count : Nat) :
    body.Invariant (fun _ _ state => state.Boxed count)
      (fun entry state => entry.Absorbs body.hierarchy state) where
  mono _ h := h
  merge h _ hmerge := h.of_mergeState hmerge
  step hinstruction h hexecute hedges edge hmem :=
    ⟨lt_of_mem_successors hclosed hinstruction hedges hmem,
      boxed_successors h (boxed_execute h hexecute) hedges hmem⟩
  self _ := .refl _
  absorb h h' hmerge := by
    obtain ⟨hheight, -, rfl⟩ := mergeState_eq_ok h.strict hmerge
    exact ⟨hjoin.absorbs_mergeValues (h.length.trans h'.length.symm),
      hjoin.absorbs_mergeValues hheight⟩
  keep h _ hmerge habsorbs := by
    obtain ⟨-, -, rfl⟩ := mergeState_eq_ok h.strict hmerge
    exact ⟨hjoin.keeps_mergeValues habsorbs.locals _, hjoin.keeps_mergeValues habsorbs.stack _⟩

/-- The entries are a fixed point: the first one, if there is one, absorbs the
    state that the body is entered with, and every instruction that was reached
    runs and has successors that absorb what it passes on. -/
structure Run.FixedPoint (body : Body) (initial : FlowState) (run : Run) : Prop where
  start : 0 < body.instructions.size →
    ∃ state, run.entryAt 0 = some state ∧ state.Absorbs body.hierarchy initial
  step : ∀ index before, run.entryAt index = some before → ∃ instruction after,
    body.instructions[index]? = some instruction ∧
      execute body.owner body.instructions index instruction before = .ok ((), after) ∧
      ∀ target passed, body.Edge index instruction before after target passed →
        ∃ state, run.entryAt target = some state ∧ state.Absorbs body.hierarchy passed

section
variable {hierarchy : Hierarchy} {owner : String} {method : MethodRecord} {code : Code}
  {a : Analysis}

theorem run_of_empty (h : code.instructions = []) (initial : FlowState) :
    Flow.run (bodyOf hierarchy owner code true) initial = .ok ⟨#[], ⟨[], []⟩, #[], 0⟩ := by
  unfold bodyOf
  rw [h]
  rfl

/-- The frames of an analysis come from an interpretation, also of an empty body. -/
theorem run_of_analyze (h : analyze hierarchy owner method code true = .ok a) :
    ∃ initial run, initialLocals owner method.access method.name method.descriptor = .ok initial ∧
      Flow.run (bodyOf hierarchy owner code true) (entryState initial code true) = .ok run ∧
      a.frames = some (framesOf code run) := by
  by_cases hempty : code.instructions = []
  · obtain ⟨initial, measured, hentry, hmeasured, -, -, rfl⟩ := analyze_eq_ok h
    refine ⟨initial, _, hentry, run_of_empty hempty _, ?_⟩
    cases hmeasured with
    | empty =>
      refine congrArg some (List.eq_nil_iff_forall_not_mem.mpr fun frame hframe => ?_).symm
      obtain ⟨label, -, hlt, -⟩ := mem_framesAt.mp hframe
      exact Nat.not_lt_zero _ hlt
    | framed _ hnonempty => exact absurd hempty hnonempty
    | sized hframes => cases hframes
  · obtain ⟨initial, run, hframed⟩ := framed_of_analyze hempty h
    exact ⟨initial, run, hframed.entry, hframed.finished, hframed.frames⟩

end

end Flow

open JvmClass.Flow

/-- **With frames, the analysis ends in a fixed point** of the body. -/
theorem fixedPoint_of_analyze {hierarchy : Hierarchy} {owner : String} {method : MethodRecord}
    {code : Code} {a : Analysis} (hjoin : hierarchy.IsJoin) (hlabels : LabelsInRange code)
    (h : analyze hierarchy owner method code true = .ok a) :
    ∃ initial run, initialLocals owner method.access method.name method.descriptor = .ok initial ∧
      Flow.run (bodyOf hierarchy owner code true) (entryState initial code true) = .ok run ∧
      a.frames = some (framesOf code run) ∧
      run.FixedPoint (bodyOf hierarchy owner code true) (entryState initial code true) := by
  obtain ⟨initial, run, hentry, hrun, hframes⟩ := run_of_analyze h
  have hfinished := finished_of_run (Body.invariant_absorbs hjoin hlabels.closed _)
    (FlowState.boxed_entryState initial code) hrun
  refine ⟨initial, run, hentry, hrun, hframes, hfinished.start, ?_⟩
  intro index before hbefore
  obtain ⟨instruction, after, edges, hinstruction, hexecute, hedges, hkeeps⟩ :=
    hfinished.settled index before hbefore
  refine ⟨instruction, after, hinstruction, Body.execute_eq_ok.mp hexecute, ?_⟩
  intro target passed hedge
  have hmem : instruction ∈ code.instructions := by
    simpa [bodyOf] using Array.mem_of_getElem? hinstruction
  exact hkeeps _ ((Body.mem_successors rfl (not_isCall_of_analyze h hmem) hedges).mpr hedge)

/-- The analysis of a loop ends in a fixed point, where only
    `java/lang/Object` is common to different classes. -/
theorem fixedPoint_of_analyze_looping :
    Hierarchy.trivial.IsJoin ∧ LabelsInRange looping ∧
      ∃ a, analyze .trivial "A" loopingMethod looping true = .ok a ∧
        ∃ initial run, initialLocals "A" loopingMethod.access "m" "()V" = .ok initial ∧
          Flow.run (bodyOf .trivial "A" looping true) (entryState initial looping true) = .ok run ∧
          a.frames = some (framesOf looping run) ∧
          run.FixedPoint (bodyOf .trivial "A" looping true) (entryState initial looping true) := by
  obtain ⟨a, ha, -⟩ := analyze_looping
  refine ⟨Hierarchy.isJoin_trivial, labelsInRange_looping, a, ha, ?_⟩
  exact fixedPoint_of_analyze Hierarchy.isJoin_trivial labelsInRange_looping ha

end JvmClass
