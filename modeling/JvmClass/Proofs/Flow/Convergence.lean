/-
  The interpretation of a method body ends by itself.

  Where no class is known, an entry changes at most three times for each of its
  values, so an instruction is not visited often (`Run.Orderly.count_le`); and
  each visit either reaches an instruction or leaves fewer visits to come, so
  that no limit is needed (`Run.Orderly.ends`).

  * `Run.exists_visits_of_noConvergence`: a loop that reaches its limit has made
    as many visits;
  * `Run.trail` computes the runs that visits lead to;
  * `Run.Converges` puts together how often instructions are taken, that stacks
    keep their height and that the loop ends;
  * `converges_of_trivial`: interpretations for frames converge, and within the
    limit if there are few enough locals and operands.
-/
import JvmClass.Proofs.Flow.Frames
import JvmClass.Proofs.Flow.Visits
import Mathlib.Algebra.Order.BigOperators.Group.Finset

namespace JvmClass

/-- A failure at an instruction. -/
def Invalid.Located (cause : Invalid) : Prop := ∃ index inner, cause = .atInstruction index inner

namespace Flow.Run

/-! ## Errors -/

theorem located_of_pass {hierarchy : Hierarchy} {run : Run} {edge : Label × FlowState}
    {cause : Invalid} (h : pass hierarchy run edge = .error cause) : cause.Located := by
  unfold pass at h
  dsimp only at h
  split at h
  next => cases h; exact ⟨_, _, rfl⟩
  next => exact nomatch h
  next => split at h <;> exact nomatch h

theorem located_of_passes {hierarchy : Hierarchy} {run : Run}
    {edges : List (Label × FlowState)} {cause : Invalid}
    (h : edges.foldlM (pass hierarchy) run = .error cause) : cause.Located := by
  induction edges generalizing run with
  | nil => exact nomatch h
  | cons edge edges ih =>
    rcases Result.bind_eq_error.mp h with hpass | ⟨middle, -, hrest⟩
    · exact located_of_pass hpass
    · exact ih hrest

theorem located_of_nextEdge {body : Body} {index : Label} {instruction : Instruction}
    {after : FlowState} {cause : Invalid} (h : body.nextEdge index instruction after = .error cause) :
    cause.Located := by
  unfold Body.nextEdge at h
  split at h
  next => exact nomatch h
  split at h
  next => exact nomatch h
  split at h
  next => exact nomatch h
  next => cases h; exact ⟨_, _, rfl⟩

theorem located_of_visit {body : Body} {index : Label} {run : Run} {cause : Invalid}
    (h : visit body index run = .error cause) : cause.Located := by
  unfold visit at h
  dsimp only at h
  split at h
  next before instruction _ _ =>
    rcases Result.bind_eq_error.mp h with hexecute | ⟨after, -, hrest⟩
    · obtain ⟨inner, -, rfl⟩ := Body.execute_eq_error.mp hexecute
      exact ⟨index, inner, rfl⟩
    rcases Result.bind_eq_error.mp hrest with hsuccessors | ⟨edges, -, hpasses⟩
    · rcases Result.bind_eq_error.mp hsuccessors with hnext | ⟨next, -, hdone⟩
      · exact located_of_nextEdge hnext
      · exact nomatch hdone
    · exact located_of_passes hpasses
  next => exact nomatch h

/-! ## Loops -/

section
variable {body : Body} {run : Run}

/-- A loop that reaches its limit has visited as many instructions as it may,
    and there is another one in the queue. -/
theorem exists_visits_of_noConvergence {fuel : Nat}
    (h : loop body fuel run = .error .noConvergence) :
    ∃ taken later index queue, Visits body run taken later ∧ taken.length = fuel ∧
      later.queue.pop? = some (index, queue) := by
  induction fuel generalizing run with
  | zero =>
    cases hpop : run.queue.pop? with
    | none => exact nomatch (loop_of_pop?_none hpop 0).symm.trans h
    | some next => exact ⟨[], run, next.1, next.2, .nil, rfl, hpop⟩
  | succ fuel ih =>
    cases hpop : run.queue.pop? with
    | none => exact nomatch (loop_of_pop?_none hpop (fuel + 1)).symm.trans h
    | some next =>
      obtain ⟨index, queue⟩ := next
      rw [loop_of_pop? hpop] at h
      rcases Result.bind_eq_error.mp h with hfail | ⟨middle, hvisit, hrest⟩
      · obtain ⟨_, _, hcause⟩ := located_of_visit hfail
        exact nomatch hcause
      · obtain ⟨taken, later, last, rest, hvisits, hlength, hlast⟩ := ih hrest
        exact ⟨index :: taken, later, last, rest, .cons hpop hvisit hvisits,
          congrArg (· + 1) hlength, hlast⟩

/-- The loop ends by itself: with any limit that is high enough, either the queue
    becomes empty or an instruction fails. -/
def Ends (body : Body) (run : Run) : Prop :=
  ∃ limit result, (∀ fuel, limit ≤ fuel → loop body fuel run = result) ∧
    ((∃ final, result = .ok final ∧ final.queue.toList = []) ∨
      ∃ cause, result = .error cause ∧ cause.Located)

theorem Ends.of_pop?_none (h : run.queue.pop? = none) : run.Ends body :=
  ⟨0, .ok run, fun fuel _ => loop_of_pop?_none h fuel,
    .inl ⟨run, rfl, Queue.toList_of_pop?_none h⟩⟩

theorem Ends.of_visit {index : Label} {queue : Queue} (hpop : run.queue.pop? = some (index, queue))
    (h : ∀ next, visit body index { run with queue := queue } = .ok next → next.Ends body) :
    run.Ends body := by
  cases hvisit : visit body index { run with queue := queue } with
  | error cause =>
    refine ⟨1, _, fun fuel hfuel => ?_, .inr ⟨cause, rfl, located_of_visit hvisit⟩⟩
    obtain ⟨fuel, rfl⟩ := Nat.exists_eq_add_of_le' hfuel
    rw [loop_of_pop? hpop, hvisit]
    rfl
  | ok next =>
    obtain ⟨limit, result, hloop, hresult⟩ := h next hvisit
    refine ⟨limit + 1, result, fun fuel hfuel => ?_, hresult⟩
    obtain ⟨fuel, rfl⟩ := Nat.exists_eq_add_of_le' (Nat.le_of_add_left_le hfuel)
    rw [loop_of_pop? hpop, hvisit]
    exact hloop fuel (by omega)

end

/-! ## Termination -/

section
variable {body : Body} {locals : Nat} {run next : Run}

/-- How many of the first `count` instructions were not reached. -/
def unreached (count : Nat) (run : Run) : Nat :=
  ((Finset.range count).filter fun i => run.entryAt i = none).card

/-- How often the first `count` instructions can be visited, those apart that
    were not reached. -/
def load (count : Nat) (run : Run) : Nat := ∑ i ∈ Finset.range count, run.weight i

/-- **Visits reach an instruction or leave fewer visits to come.** -/
theorem lex_of_rise {count : Nat} {spent : Label → Nat}
    (h : ∀ i, Rise locals (spent i) run next i) {index : Label} (hlt : index < count)
    (hspent : 0 < spent index) :
    Prod.Lex (· < ·) (· < ·) (next.unreached count, next.load count)
      (run.unreached count, run.load count) := by
  have hnone (i : Label) (hi : next.entryAt i = none) : run.entryAt i = none := by
    cases h i with
    | unreached hrun => exact hrun
    | reached hrun => exact hrun
    | kept _ hnext => exact nomatch hi.symm.trans hnext
  have hweight (i : Label) (hi : run.entryAt i = none → next.entryAt i = none) :
      spent i + next.weight i ≤ run.weight i := by
    cases h i with
    | unreached _ hnext hspent => rw [hspent, weight_of_none hnext]; exact Nat.zero_le _
    | reached hrun hnext => exact nomatch (hi hrun).symm.trans hnext
    | kept _ _ _ hweight => exact hweight
  by_cases hsame : ∀ i < count, run.entryAt i = none → next.entryAt i = none
  · have hunreached : next.unreached count = run.unreached count := by
      refine congrArg Finset.card (Finset.filter_congr fun i hi => ?_)
      exact ⟨hnone i, hsame i (Finset.mem_range.mp hi)⟩
    rw [hunreached]
    refine .right _ (Finset.sum_lt_sum (fun i hi => ?_) ⟨index, Finset.mem_range.mpr hlt, ?_⟩)
    · exact Nat.le_of_add_left_le (hweight i (hsame i (Finset.mem_range.mp hi)))
    · have := hweight index (hsame index hlt)
      omega
  · simp only [not_forall] at hsame
    obtain ⟨i, hi, hrun, hnext⟩ := hsame
    refine .left _ _ (Finset.card_lt_card (Finset.ssubset_iff_of_subset ?_ |>.mpr ⟨i, ?_, ?_⟩))
    · exact Finset.monotone_filter_right _ fun i _ => hnone i
    · exact Finset.mem_filter.mpr ⟨Finset.mem_range.mpr hi, hrun⟩
    · exact fun hmem => hnext (Finset.mem_filter.mp hmem).2

/-- **A loop whose queue is in order ends by itself.** -/
theorem Orderly.ends (hclosed : body.Closed) (htrivial : body.hierarchy = .trivial) {run : Run}
    (hrun : run.Orderly body locals) : run.Ends body := by
  cases hpop : run.queue.pop? with
  | none => exact .of_pop?_none hpop
  | some popped =>
    obtain ⟨index, queue⟩ := popped
    refine .of_visit hpop fun next hvisit => ?_
    obtain ⟨hnext, hrise⟩ := hrun.visit hclosed htrivial hpop hvisit
    obtain ⟨-, state, hstate⟩ := hrun.reached_of_pop? hpop
    have hlt : index < body.instructions.size := hrun.entries ▸ run.lt_of_entryAt hstate
    have hfewer := lex_of_rise hrise hlt (List.count_pos_iff.mpr (.head _))
    exact hnext.ends hclosed htrivial
termination_by (run.unreached body.instructions.size, run.load body.instructions.size)
decreasing_by exact hfewer

/-! ## Counting visits -/

/-- A list of labels is not long if it repeats none of them often. -/
theorem length_le_of_count_le {count most : Nat} {labels : List Label}
    (hlt : ∀ i ∈ labels, i < count) (hmost : ∀ i, labels.count i ≤ most) :
    labels.length ≤ count * most := by
  have hsub : labels.toFinset ⊆ Finset.range count := fun i hi =>
    Finset.mem_range.mpr (hlt i (List.mem_toFinset.mp hi))
  calc labels.length
      = ∑ i ∈ labels.toFinset, labels.count i := (List.sum_toFinset_count_eq_length labels).symm
    _ ≤ labels.toFinset.card * most := Finset.sum_le_card_nsmul _ _ _ fun i _ => hmost i
    _ ≤ count * most := by
      have hcard := Finset.card_le_card hsub
      rw [Finset.card_range] at hcard
      exact Nat.mul_le_mul_right most hcard

/-- How many operands an instruction is entered with; none if it was not
    reached. -/
def depthAt (run : Run) (i : Label) : Nat := ((run.entryAt i).map (·.stack.length)).getD 0

theorem depthAt_of_some {i : Label} {state : FlowState} (h : run.entryAt i = some state) :
    run.depthAt i = state.stack.length := by
  rw [depthAt, h]
  rfl

/-- An instruction of a run was visited at most as often as its values can change,
    and once more. -/
theorem Orderly.spent_le (hrun : run.Orderly body locals) {spent : Nat} {i : Label}
    {state : FlowState} (h : Rise locals spent run next i) (hstate : next.entryAt i = some state) :
    spent + next.weight i ≤ 1 + 3 * (locals + state.stack.length) := by
  cases h with
  | unreached _ hnone => exact nomatch hnone.symm.trans hstate
  | reached _ hsome hweight =>
    cases hsome.symm.trans hstate
    exact hweight
  | @kept before _ hbefore hsome hlength hweight =>
    cases hsome.symm.trans hstate
    have hle := weight_le hbefore
    have hheight := before.height_le
    rw [(hrun.boxed i before hbefore).length] at hheight
    rw [hlength]
    omega

theorem Rise.spent_eq_zero {spent : Nat} {i : Label} (h : Rise locals spent run next i)
    (hnone : next.entryAt i = none) : spent = 0 := by
  cases h with
  | unreached _ _ hspent => exact hspent
  | reached _ hsome => exact nomatch hnone.symm.trans hsome
  | kept _ hsome => exact nomatch hnone.symm.trans hsome

section
variable (hclosed : body.Closed) (htrivial : body.hierarchy = .trivial)
  (hrun : run.Orderly body locals) {taken : List Label} (hvisits : Visits body run taken next)
  {index : Label} {queue : Queue} (hpop : next.queue.pop? = some (index, queue))
include hclosed htrivial hrun hvisits hpop

/-- The instructions that were taken up to the one at the head of the queue. -/
theorem Orderly.rise_taken (i : Label) :
    Rise locals ((taken ++ [index]).count i) run
      ⟨next.entries, queue, next.queued.setIfInBounds index false, next.maxStack⟩ i := by
  obtain ⟨hnext, hrise⟩ := hrun.visits hclosed htrivial hvisits
  rw [List.count_append]
  exact (hrise i).trans ((hnext.take hpop next.maxStack).2 i)

/-- **No instruction is taken more often than its values can change, and once
    more.** -/
theorem Orderly.count_le (i : Label) :
    (taken ++ [index]).count i ≤ 1 + 3 * (locals + next.depthAt i) := by
  have hrise := hrun.rise_taken hclosed htrivial hvisits hpop i
  cases hentry : next.entryAt i with
  | none =>
    rw [hrise.spent_eq_zero hentry]
    exact Nat.zero_le _
  | some state =>
    rw [depthAt_of_some hentry]
    exact Nat.le_of_add_right_le (hrun.spent_le hrise hentry)

/-- If no instruction is taken more than `most` times, only so many are. -/
theorem Orderly.length_lt {most : Nat} (hmost : ∀ i, 1 + 3 * (locals + next.depthAt i) ≤ most) :
    taken.length < body.instructions.size * most := by
  obtain ⟨hnext, -⟩ := hrun.visits hclosed htrivial hvisits
  have hlt (i : Label) (hi : i ∈ taken ++ [index]) : i < body.instructions.size := by
    cases hentry : next.entryAt i with
    | none =>
      have hzero := (hrun.rise_taken hclosed htrivial hvisits hpop i).spent_eq_zero hentry
      exact absurd hi (List.count_eq_zero.mp hzero)
    | some state => exact hnext.entries ▸ next.lt_of_entryAt hentry
  have hlength := length_le_of_count_le hlt fun i =>
    (hrun.count_le hclosed htrivial hvisits hpop i).trans (hmost i)
  rwa [List.length_append, List.length_singleton] at hlength

end

/-! ## In the beginning -/

theorem orderly_start (hpos : 0 < body.instructions.size) {initial : FlowState}
    (hinitial : initial.Boxed locals) :
    (start body.instructions.size initial).Orderly body locals := by
  refine ⟨by simp [start], by simp [start], List.nodup_singleton 0, fun i => ?_, fun i hi => ?_,
    fun i state hstate => ?_⟩
  · rw [queued_start]
    exact List.mem_singleton.trans ⟨fun h => ⟨h ▸ hpos, h⟩, And.right⟩
  · exact ⟨initial, by rw [entryAt_start, if_pos ((queued_start i).mp hi)]⟩
  · rw [entryAt_start] at hstate
    split at hstate
    next => cases hstate; exact hinitial
    next => cases hstate

theorem visits_of_empty {initial : FlowState} {taken : List Label}
    (h : Visits body (start 0 initial) taken next) :
    (∀ i, next.entryAt i = none) ∧ (taken = [] ∨ next.queue.pop? = none) := by
  cases h with
  | nil =>
    refine ⟨fun i => ?_, .inl rfl⟩
    rw [entryAt_start, if_neg fun h => Nat.not_lt_zero i h.1]
  | cons hpop hvisit hrest =>
    cases hpop
    cases hvisit
    cases hrest with
    | nil => exact ⟨fun _ => rfl, .inr rfl⟩
    | cons hpop => exact nomatch hpop

theorem ends_of_empty {initial : FlowState} : (start 0 initial).Ends body :=
  .of_visit rfl fun next hvisit => by
    cases hvisit
    exact .of_pop?_none rfl

/-- The runs that at most `fuel` visits lead to. -/
def trail (body : Body) : (fuel : Nat) → Run → List Run
  | 0, run => [run]
  | fuel + 1, run =>
    match run.queue.pop? with
    | none => [run]
    | some (index, queue) =>
      match visit body index { run with queue := queue } with
      | .error _ => [run]
      | .ok next => run :: trail body fuel next

theorem Visits.mem_trail {taken : List Label} (h : Visits body run taken next) {fuel : Nat}
    (hfuel : taken.length ≤ fuel) : next ∈ trail body fuel run := by
  induction h generalizing fuel with
  | @nil run =>
    unfold trail
    split
    · exact .head _
    · split
      · exact .head _
      · split <;> exact .head _
  | cons hpop hvisit _ ih =>
    obtain ⟨fuel, rfl⟩ := Nat.exists_eq_add_of_le' (Nat.le_of_add_left_le hfuel)
    unfold trail
    simp only [hpop, hvisit]
    exact .tail _ (ih (Nat.le_of_succ_le_succ hfuel))

theorem depthAt_le {depth : Nat} {i : Label}
    (h : ∀ entry ∈ run.entries.toList, (entry.map (·.stack.length)).getD 0 ≤ depth) :
    run.depthAt i ≤ depth := by
  cases hentry : run.entryAt i with
  | none => rw [depthAt, hentry]; exact Nat.zero_le _
  | some state =>
    rw [depthAt_of_some hentry]
    rw [entryAt, Option.join_eq_some_iff] at hentry
    exact h _ (Array.mem_toList_iff.mpr (Array.mem_of_getElem? hentry))

/-! ## Convergence -/

/-- The interpretation from `start` on converges, of a body with slots for `locals`
    locals. -/
structure Converges (body : Body) (locals : Nat) (start : Run) : Prop where
  /-- An instruction is taken from the queue at most once more than its values
      can change; the one at the head of the queue is counted in. -/
  taken : ∀ taken run index queue, Visits body start taken run →
    run.queue.pop? = some (index, queue) → ∀ i,
      (taken ++ [index]).count i ≤ 1 + 3 * (locals + run.depthAt i)
  /-- Once an instruction was reached, its stack keeps its height. -/
  heights : ∀ before run after later i state, Visits body start before run →
    Visits body run after later → run.entryAt i = some state →
      ∃ other, later.entryAt i = some other ∧ other.stack.length = state.stack.length
  /-- No limit is needed. -/
  ends : start.Ends body

theorem Orderly.converges (hclosed : body.Closed) (htrivial : body.hierarchy = .trivial)
    (hrun : run.Orderly body locals) : Converges body locals run where
  taken _ _ _ _ hvisits hpop i := hrun.count_le hclosed htrivial hvisits hpop i
  heights _ middle _ later i state hbefore hafter hstate := by
    obtain ⟨hmiddle, -⟩ := hrun.visits hclosed htrivial hbefore
    cases (hmiddle.visits hclosed htrivial hafter).2 i with
    | unreached hnone | reached hnone => exact nomatch hnone.symm.trans hstate
    | kept hsome hnext hlength =>
      cases hsome.symm.trans hstate
      exact ⟨_, hnext, hlength⟩
  ends := hrun.ends hclosed htrivial

theorem converges_of_empty (initial : FlowState) : Converges body locals (start 0 initial) where
  taken taken next index queue hvisits hpop i := by
    obtain ⟨-, rfl | hempty⟩ := visits_of_empty hvisits
    · have hle : ([] ++ [index]).count i ≤ 1 := List.count_le_length
      omega
    · exact nomatch hempty.symm.trans hpop
  heights before middle after later i state hbefore hafter hstate := by
    exact nomatch ((visits_of_empty hbefore).1 i).symm.trans hstate
  ends := ends_of_empty

end

end Flow.Run

namespace Flow

/-- The interpretation of a body that is entered with `initial`, before the first
    visit. -/
def Body.start (body : Body) (initial : FlowState) : Run :=
  Run.start body.instructions.size initial

/-- An analysis that did not converge comes from an interpretation that reached
    its limit. -/
theorem limit_of_analyze {hierarchy : Hierarchy} {owner : String} {method : MethodRecord}
    {code : Code} (h : analyze hierarchy owner method code true =
      .error (.inMethod method.name method.descriptor .noConvergence)) :
    ∃ initial,
      initialLocals owner method.access method.name method.descriptor = .ok initial ∧
      code.instructions ≠ [] ∧
      Flow.run (bodyOf hierarchy owner code true) (entryState initial code true) =
        .error .noConvergence := by
  obtain ⟨cause, hanalyze, hcause⟩ := Result.mapError_eq_error.mp h
  obtain rfl : cause = .noConvergence := by cases hcause; rfl
  rcases analyzeBody_eq_error hanalyze with ⟨_, -, hmalformed⟩ | ⟨initial, hinitial, hcause⟩
  · exact nomatch hmalformed
  rcases hcause with ⟨-, hlocals⟩ | ⟨-, hsubroutine⟩ | ⟨hnonempty, hrun⟩ | ⟨_, -, -, hstack⟩
  · exact nomatch hlocals
  · exact nomatch hsubroutine
  · exact ⟨initial, hinitial, hnonempty, hrun⟩
  · exact nomatch hstack

end Flow

open JvmClass.Flow

/-- **Where no class is known, the interpretation for frames converges by itself**:
    no instruction is visited more often than three times for each local and
    operand that it is entered with, and once more.  So an analysis stays within
    its limit if there are few enough of them. -/
theorem converges_of_trivial {owner : String} {method : MethodRecord} {code : Code}
    (hlabels : LabelsInRange code) :
    (∀ initial, Run.Converges (bodyOf .trivial owner code true) (localsOf initial code)
      ((bodyOf .trivial owner code true).start (entryState initial code true))) ∧
    ((∀ initial taken run i,
        initialLocals owner method.access method.name method.descriptor = .ok initial →
        Run.Visits (bodyOf .trivial owner code true)
          ((bodyOf .trivial owner code true).start (entryState initial code true)) taken run →
        taken.length ≤ runLimit code.instructions.length →
        1 + 3 * (localsOf initial code + run.depthAt i) ≤ 64) →
      analyze .trivial owner method code true ≠
        .error (.inMethod method.name method.descriptor .noConvergence)) := by
  have hsize : (bodyOf .trivial owner code true).instructions.size = code.instructions.length :=
    List.size_toArray
  have hclosed : (bodyOf .trivial owner code true).Closed := hlabels.closed
  refine ⟨fun initial => ?_, fun hfew herror => ?_⟩
  · rcases Nat.eq_zero_or_pos (bodyOf .trivial owner code true).instructions.size with hzero | hpos
    · rw [Body.start, hzero]
      exact Run.converges_of_empty _
    · exact (Run.orderly_start hpos (FlowState.boxed_entryState initial code)).converges hclosed rfl
  · obtain ⟨initial, hinitial, hnonempty, hlimit⟩ := limit_of_analyze herror
    have hpos : 0 < (bodyOf .trivial owner code true).instructions.size := by
      rw [hsize]
      exact List.length_pos_iff.mpr hnonempty
    obtain ⟨taken, run, index, queue, hvisits, hlength, hpop⟩ :=
      Run.exists_visits_of_noConvergence hlimit
    rw [hsize] at hlength
    have hlt := (Run.orderly_start hpos (FlowState.boxed_entryState initial code)).length_lt hclosed
      rfl hvisits hpop fun i => hfew initial taken run i hinitial hvisits (Nat.le_of_eq hlength)
    rw [hlength, hsize] at hlt
    exact absurd (Nat.le_max_left _ _) (Nat.not_le.mpr hlt)

/-- A loop with a handler converges: its instructions are entered with two
    operands at most. -/
theorem converges_of_trivial_looping :
    LabelsInRange looping ∧
    Run.Converges (bodyOf .trivial "A" looping true) 1
      ((bodyOf .trivial "A" looping true).start (entryState [] looping true)) ∧
    analyze .trivial "A" loopingMethod looping true ≠
      .error (.inMethod "m" "()V" .noConvergence) := by
  obtain ⟨hconverges, hlimit⟩ := @converges_of_trivial "A" loopingMethod looping labelsInRange_looping
  refine ⟨labelsInRange_looping, hconverges [], hlimit ?_⟩
  intro initial taken run i hinitial hvisits hlength
  obtain ⟨_, hentry, rfl⟩ : ∃ locals, initialLocals "A" loopingMethod.access loopingMethod.name
      loopingMethod.descriptor = .ok locals ∧ locals = [] :=
    Result.exists_ok (by decide +kernel)
  cases hentry.symm.trans hinitial
  have hlocals : localsOf [] looping = 1 := by decide
  have hdepths : ∀ run ∈ Run.trail (bodyOf .trivial "A" looping true) (runLimit 12)
      ((bodyOf .trivial "A" looping true).start (entryState [] looping true)),
      ∀ entry ∈ run.entries.toList, (entry.map (·.stack.length)).getD 0 ≤ 2 := by
    decide +kernel
  have hdepth := Run.depthAt_le (i := i) (hdepths run (hvisits.mem_trail hlength))
  rw [hlocals]
  omega

end JvmClass
