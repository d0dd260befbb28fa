/-
  Where frames stand, and what is buried.

  * `Flow.Buries`: unreachable instructions are replaced by `nop`s that end in an
    `athrow`, and no others;
  * `Analysis.NeedsFrame`: control gets to a place otherwise than from the
    instruction in front of it;
  * `placement_of_analyze`: with frames, exactly the unreachable instructions
    are buried, and exactly the places that need one have a frame, whose objects
    that are not initialized come from instructions that are still there.
-/
import JvmClass.Proofs.Flow.Frames
import JvmClass.Proofs.Flow.Reachable

namespace JvmClass

open JvmClass.Flow

/-- The instructions `after` are those `before` with every run of instructions
    that are not `live` replaced by `nop`s that end in an `athrow`. -/
structure Flow.Buries (live : Label → Prop) (before after : List Instruction) : Prop where
  length : after.length = before.length
  kept : ∀ i, live i → after[i]? = before[i]?
  inner : ∀ i, ¬ live i → i + 1 < before.length → ¬ live (i + 1) →
    after[i]? = some (.simple Opcode.nop)
  last : ∀ i < before.length, ¬ live i → (i + 1 < before.length → live (i + 1)) →
    after[i]? = some (.simple Opcode.athrow)

/-- Control gets to a place otherwise than from the instruction in front of it,
    which is a branch target, the place of a handler or behind the end of a
    block. -/
inductive Analysis.NeedsFrame (a : Analysis) (k : Label) : Prop
  | branch {i : Instruction} (hmem : i ∈ a.instructions) (htarget : k ∈ i.targets)
  | handler {h : ExceptionHandler} (hmem : h ∈ a.exceptionTable) (hk : h.handler = k)
  | behind {j : Label} {i : Instruction} (h : a.instructions[j]? = some i)
      (hends : i.endsBlock = true) (hk : k = j + 1)

namespace Flow

variable {code : Code} {run : Run}

/-! ## Reached instructions -/

namespace Explored

variable (h : Explored code run)
include h

theorem lt {i : Label} (hi : Reachable code i) : i < code.stop := by
  obtain ⟨state, hstate⟩ := (h.reached i).mpr hi
  exact h.size ▸ run.lt_of_entryAt hstate

theorem getElem?_reached {i : Label} :
    (run.entries.map Option.isSome)[i]? = some true ↔ Reachable code i := by
  rw [← h.reached i, Array.getElem?_map, Run.entryAt]
  cases run.entries[i]? with
  | none => simp
  | some entry => simp [Option.isSome_iff_exists]

theorem getElem?_unreached {i : Label} :
    (run.entries.map Option.isSome)[i]? = some false ↔ i < code.stop ∧ ¬ Reachable code i := by
  rw [← h.getElem?_reached, ← h.size]
  by_cases hlt : i < run.entries.size
  · rw [Array.getElem?_map, Array.getElem?_eq_getElem hlt]
    simp [hlt]
  · rw [Array.getElem?_eq_none (by simpa using Nat.not_lt.mp hlt)]
    simp [hlt]

theorem covered_deadOf {i : Label} :
    Covered (deadOf run) i ↔ i < code.stop ∧ ¬ Reachable code i := by
  rw [deadOf, covered_deadRanges, Array.getElem?_toList, h.getElem?_unreached]

theorem starts_deadOf {k : Label} :
    (∃ r ∈ deadOf run, r.1 = k) ↔
      (k < code.stop ∧ ¬ Reachable code k) ∧ ∀ j, k = j + 1 → Reachable code j := by
  rw [deadOf, starts_deadRanges, Array.getElem?_toList, h.getElem?_unreached]
  refine and_congr_right fun hk => forall_congr' fun j => forall_congr' fun hj => ?_
  subst hj
  have hlt : j < code.stop := Nat.lt_of_succ_lt hk.1
  rw [Array.getElem?_toList, Ne, h.getElem?_unreached, not_and_not_right]
  exact ⟨fun himp => himp hlt, fun hreachable _ => hreachable⟩

/-- **Exactly the unreachable instructions are buried.** -/
theorem buries : Buries (Reachable code) code.instructions
    (bury (run.entries.map Option.isSome) code.instructions) := by
  refine ⟨length_bury _ _, fun i hi => ?_, fun i hi hlt hnext => ?_, fun i hlt hi hnext => ?_⟩
  · have hlive : (run.entries.map Option.isSome)[i]? ≠ some false := by
      rw [h.getElem?_reached.mpr hi]
      simp
    rw [getElem?_bury]
    simp only [if_neg hlive, Option.map_id_fun', id_eq]
  · have hlt' : i < code.instructions.length := Nat.lt_of_succ_lt hlt
    rw [getElem?_bury, List.getElem?_eq_getElem hlt', Option.map_some,
      if_pos (h.getElem?_unreached.mpr ⟨hlt', hi⟩), if_pos (h.getElem?_unreached.mpr ⟨hlt, hnext⟩)]
  · have hend : ¬ (run.entries.map Option.isSome)[i + 1]? = some false := by
      rw [h.getElem?_unreached]
      exact fun ⟨hlt, hdead⟩ => hdead (hnext hlt)
    rw [getElem?_bury, List.getElem?_eq_getElem hlt, Option.map_some,
      if_pos (h.getElem?_unreached.mpr ⟨hlt, hi⟩), if_neg hend]

/-! ## Handlers that are left -/

theorem reachable_of_removeRanges (hlabels : LabelsInRange code) {piece : ExceptionHandler}
    (hpiece : piece ∈ removeRanges code.exceptionTable (deadOf run)) :
    Reachable code piece.handler := by
  unfold removeRanges at hpiece
  split at hpiece
  next hnone =>
    -- Without unreachable ranges, all instructions are reachable.
    by_contra hdead
    obtain ⟨r, hr, -⟩ := h.covered_deadOf.mpr ⟨(hlabels.handlers piece hpiece).2, hdead⟩
    rw [List.isEmpty_iff.mp hnone] at hr
    cases hr
  next =>
    obtain ⟨handler, hmem, hcut⟩ := List.mem_flatMap.mp hpiece
    obtain ⟨hlt, -, hsame, -⟩ := mem_cut hcut
    obtain ⟨hstart, hstop, hclear⟩ :=
      (covered_cut (disjoint_deadRanges _).apart).mp ⟨piece, hcut, Nat.le_refl _, hlt⟩
    have hreachable : Reachable code piece.start := by
      by_contra hdead
      have hinside := Nat.lt_of_lt_of_le hstop (hlabels.handlers handler hmem).1
      exact hclear (h.covered_deadOf.mpr ⟨hinside, hdead⟩)
    rw [hsame]
    exact hreachable.step (.handler hmem hstart hstop)

theorem exists_mem_removeRanges {handler : ExceptionHandler} (hmem : handler ∈ code.exceptionTable)
    {i : Label} (hi : Reachable code i) (hstart : handler.start ≤ i) (hstop : i < handler.stop) :
    ∃ piece ∈ removeRanges code.exceptionTable (deadOf run), piece.handler = handler.handler := by
  unfold removeRanges
  split
  next => exact ⟨handler, hmem, rfl⟩
  next =>
    have hclear : ¬ Covered (deadOf run) i := fun hdead => (h.covered_deadOf.mp hdead).2 hi
    obtain ⟨piece, hcut, -⟩ :=
      (covered_cut (disjoint_deadRanges _).apart).mpr ⟨hstart, hstop, hclear⟩
    exact ⟨piece, List.mem_flatMap.mpr ⟨handler, hmem, hcut⟩, (mem_cut hcut).2.2.1⟩

/-! ## Labels of frames -/

theorem mem_frameLabels {table : List ExceptionHandler} {dead : List (Nat × Nat)} {k : Label} :
    k ∈ frameLabels (run.entries.map Option.isSome) code table dead ↔
      (∃ i instruction, code.instructions[i]? = some instruction ∧ Reachable code i ∧
        k ∈ instruction.targets) ∨ (∃ r ∈ dead, r.1 = k) ∨
        ∃ handler ∈ table, handler.handler = k := by
  simp only [frameLabels, List.mem_append, List.mem_flatMap, List.mem_filter, List.mem_map,
    Prod.exists, List.mem_zipIdx_iff_getElem?, decide_eq_true_eq, h.getElem?_reached, or_assoc]
  refine or_congr_left ⟨?_, ?_⟩
  · rintro ⟨instruction, i, ⟨hget, hi⟩, htarget⟩
    exact ⟨i, instruction, hget, hi, htarget⟩
  · rintro ⟨i, instruction, hget, hi, htarget⟩
    exact ⟨instruction, i, ⟨hget, hi⟩, htarget⟩

/-- Reachable labels and those where an unreachable range begins have a
    frame. -/
theorem exists_frameAt {k : Label} :
    (∃ frame, frameAt run.entries (deadOf run) k = some frame) ↔
      Reachable code k ∨ ∃ r ∈ deadOf run, r.1 = k := by
  rw [← h.reached k, Run.entryAt]
  unfold frameAt
  cases run.entries[k]?.join with
  | some state => simp
  | none => simp [List.any_eq_true, beq_iff_eq]

end Explored

end Flow

namespace FlowState

/-! ## Values in frames -/

theorem mem_frameLocalsRev {done : List VerificationType} {locals : List Value}
    {type : VerificationType} (h : type ∈ frameLocalsRev done locals) :
    type ∈ done ∨ ∃ v ∈ locals, v.verificationType = type := by
  induction done, locals using frameLocalsRev.induct with
  | case1 done => exact .inl h
  | case2 done value =>
    rcases List.mem_cons.mp h with rfl | h
    · exact .inr ⟨value, .head _, rfl⟩
    · exact .inl h
  | case3 done value next rest hwide ih =>
    rw [frameLocalsRev, if_pos hwide] at h
    rcases ih h with h | ⟨v, hv, heq⟩
    · rcases List.mem_cons.mp h with rfl | h
      · exact .inr ⟨value, .head _, rfl⟩
      · exact .inl h
    · exact .inr ⟨v, .tail _ (.tail _ hv), heq⟩
  | case4 done value next rest hnarrow ih =>
    rw [frameLocalsRev, if_neg hnarrow] at h
    rcases ih h with h | ⟨v, hv, heq⟩
    · rcases List.mem_cons.mp h with rfl | h
      · exact .inr ⟨value, .head _, rfl⟩
      · exact .inl h
    · exact .inr ⟨v, .tail _ hv, heq⟩

/-- What a frame shows is what it shows of a value of the state. -/
theorem exists_of_mem_frame {state : FlowState} {target : Label} {type : VerificationType}
    (h : type ∈ (state.frame target).locals ++ (state.frame target).stack) :
    ∃ v, (v ∈ state.locals ∨ v ∈ state.stack) ∧ v.verificationType = type := by
  rcases List.mem_append.mp h with hlocal | hoperand
  · have hmem := (List.dropWhile_sublist _).subset (List.mem_reverse.mp hlocal)
    rcases mem_frameLocalsRev hmem with hnone | ⟨v, hv, heq⟩
    · cases hnone
    · exact ⟨v, .inl hv, heq⟩
  · obtain ⟨v, hv, heq⟩ := List.mem_map.mp (List.mem_reverse.mp hoperand)
    exact ⟨v, .inr hv, heq⟩

end FlowState

/-! ## The result -/

section
variable {hierarchy : Hierarchy} {owner : String} {method : MethodRecord} {code : Code}
  {a : Analysis} {initial : List VerificationType} {run : Run}

namespace Flow.Framed

variable (hframed : Framed hierarchy owner method code a initial run) (h : Explored code run)
include hframed h

theorem buries : Buries (Reachable code) code.instructions a.instructions :=
  hframed.instructions ▸ h.buries

/-- Instructions with branch targets are reachable ones of the body. -/
theorem reachable_of_target {p : Label} {i : Instruction} (hget : a.instructions[p]? = some i)
    {k : Label} (htarget : k ∈ i.targets) :
    Reachable code p ∧ code.instructions[p]? = some i := by
  have hburies := hframed.buries h
  have hlt : p < code.instructions.length :=
    hburies.length ▸ (List.getElem?_eq_some_iff.mp hget).1
  by_cases hp : Reachable code p
  · exact ⟨hp, (hburies.kept p hp).symm.trans hget⟩
  · by_cases hnext : p + 1 < code.instructions.length ∧ ¬ Reachable code (p + 1)
    · cases hget.symm.trans (hburies.inner p hp hnext.1 hnext.2)
      cases htarget
    · simp only [not_and, not_not] at hnext
      cases hget.symm.trans (hburies.last p hlt hp hnext)
      cases htarget

/-- The labels of frames are those that were asked for and have one. -/
theorem mem_targets {k : Label} :
    k ∈ (framesOf code run).map (·.target) ↔
      k < code.stop ∧ (Reachable code k ∨ ∃ r ∈ deadOf run, r.1 = k) ∧
        ((∃ i instruction, code.instructions[i]? = some instruction ∧ Reachable code i ∧
          k ∈ instruction.targets) ∨ (∃ r ∈ deadOf run, r.1 = k) ∨
          ∃ handler ∈ a.exceptionTable, handler.handler = k) := by
  rw [← h.exists_frameAt, hframed.exceptionTable, ← h.mem_frameLabels, ← h.size, List.mem_map]
  constructor
  · rintro ⟨frame, hmem, rfl⟩
    obtain ⟨label, hlabel, hlt, hframe⟩ := mem_framesAt.mp hmem
    rw [target_of_frameAt hframe]
    exact ⟨hlt, ⟨frame, hframe⟩, hlabel⟩
  · rintro ⟨hlt, ⟨frame, hframe⟩, hlabel⟩
    exact ⟨frame, mem_framesAt.mpr ⟨k, hlabel, hlt, hframe⟩, target_of_frameAt hframe⟩

/-- A reachable place is a branch target or a handler, if control does not get
    there from the instruction in front. -/
theorem asked_of_reachable {j : Label} (hk : Reachable code (j + 1))
    (hends : ∀ i, Reachable code j → code.instructions[j]? = some i → i.endsBlock = true) :
    (∃ i instruction, code.instructions[i]? = some instruction ∧ Reachable code i ∧
      j + 1 ∈ instruction.targets) ∨ ∃ handler ∈ a.exceptionTable, handler.handler = j + 1 := by
  generalize heq : j + 1 = k at hk ⊢
  cases hk with
  | start => cases heq
  | @step i _ hi hleads =>
    cases hleads with
    | next hget hgoes =>
      obtain rfl : j = i := Nat.succ.inj heq
      exact absurd (hends _ hi hget) (by simp [hgoes])
    | branch hget htarget => exact .inl ⟨i, _, hget, hi, htarget⟩
    | handler hmem hstart hstop =>
      rw [hframed.exceptionTable]
      exact .inr (h.exists_mem_removeRanges hmem hi hstart hstop)

/-- Where an unreachable range begins, the instruction in front is reachable, and
    control does not go on from it. -/
theorem needsFrame_of_dead {k : Label} (hdead : ∃ r ∈ deadOf run, r.1 = k) : a.NeedsFrame k := by
  obtain ⟨⟨-, hunreachable⟩, hbefore⟩ := h.starts_deadOf.mp hdead
  cases k with
  | zero => exact absurd .start hunreachable
  | succ j =>
    have hj := hbefore j rfl
    obtain ⟨i, hget⟩ : ∃ i, code.instructions[j]? = some i :=
      ⟨_, List.getElem?_eq_getElem (h.lt hj)⟩
    refine .behind (((hframed.buries h).kept j hj).trans hget) ?_ rfl
    by_contra hgoes
    exact hunreachable (hj.step (.next hget (by simpa using hgoes)))

/-- Behind the end of a block an unreachable range begins, or control gets there
    by a branch or to a handler. -/
theorem asked_of_behind {j : Label} {i : Instruction} (hlt : j + 1 < code.stop)
    (hget : a.instructions[j]? = some i) (hends : i.endsBlock = true) :
    (∃ r ∈ deadOf run, r.1 = j + 1) ∨
      Reachable code (j + 1) ∧
        ((∃ i instruction, code.instructions[i]? = some instruction ∧ Reachable code i ∧
          j + 1 ∈ instruction.targets) ∨ ∃ handler ∈ a.exceptionTable, handler.handler = j + 1) := by
  have hburies := hframed.buries h
  by_cases hreachable : Reachable code (j + 1)
  · refine .inr ⟨hreachable, hframed.asked_of_reachable h hreachable ?_⟩
    intro i' hj hget'
    have hsame := hget.symm.trans ((hburies.kept j hj).trans hget')
    rwa [Option.some.inj hsame] at hends
  · refine .inl (h.starts_deadOf.mpr ⟨⟨hlt, hreachable⟩, ?_⟩)
    -- What is in front is no `nop`, so that it is reachable.
    rintro _ ⟨⟩
    by_contra hj
    cases hget.symm.trans (hburies.inner j hj hlt hreachable)
    cases hends

/-- **Frames stand exactly where they are needed.** -/
theorem mem_targets_iff (hlabels : LabelsInRange code) {k : Label} :
    k ∈ (framesOf code run).map (·.target) ↔ k < code.stop ∧ a.NeedsFrame k := by
  rw [hframed.mem_targets h]
  refine and_congr_right fun hlt => ⟨?_, fun hneeds => ?_⟩
  · rintro ⟨-, ⟨i, instruction, hget, hi, htarget⟩ | hdead | ⟨handler, hmem, hk⟩⟩
    · have hkept := ((hframed.buries h).kept i hi).trans hget
      exact .branch (List.mem_of_getElem? hkept) htarget
    · exact hframed.needsFrame_of_dead h hdead
    · exact .handler hmem hk
  cases hneeds with
  | branch hmem htarget =>
    obtain ⟨p, hget⟩ := List.mem_iff_getElem?.mp hmem
    obtain ⟨hp, hget⟩ := hframed.reachable_of_target h hget htarget
    exact ⟨.inl (hp.step (.branch hget htarget)), .inl ⟨p, _, hget, hp, htarget⟩⟩
  | @handler handler hmem hk =>
    have hreachable := h.reachable_of_removeRanges hlabels (hframed.exceptionTable ▸ hmem)
    exact ⟨.inl (hk ▸ hreachable), .inr (.inr ⟨handler, hmem, hk⟩)⟩
  | behind hget hends hk =>
    subst hk
    rcases hframed.asked_of_behind h hlt hget hends with
      hdead | ⟨hreachable, hbranch | hhandler⟩
    · exact ⟨.inr hdead, .inr (.inl hdead)⟩
    · exact ⟨.inl hreachable, .inl hbranch⟩
    · exact ⟨.inl hreachable, .inr (.inr hhandler)⟩

/-- Objects in frames that are not initialized come from instructions that are
    still there. -/
theorem exists_new {frame : Frame} (hframe : frame ∈ framesOf code run) {label : Label}
    (hlabel : .uninitialized label ∈ frame.locals ++ frame.stack) :
    ∃ name, a.instructions[label]? = some (.type Opcode.new name) := by
  obtain ⟨place, -, -, hat⟩ := mem_framesAt.mp hframe
  rcases frameAt_eq_some hat with ⟨state, hentry, rfl⟩ | ⟨-, rfl⟩
  · obtain ⟨v, hv, hshown⟩ := FlowState.exists_of_mem_frame hlabel
    have hmade : v.Made code :=
      hv.elim ((h.made place state hentry).locals v) ((h.made place state hentry).stack v)
    have hvalue : v = .uninitialized label := by
      cases v with
      | known type => exact congrArg Value.known hshown
      | returnAddress => cases hshown
    obtain ⟨hreachable, name, hget⟩ := hmade label hvalue
    exact ⟨name, ((hframed.buries h).kept label hreachable).trans hget⟩
  · simp [deadFrame] at hlabel

end Flow.Framed

/-- **With frames, the analysis buries exactly the unreachable instructions, and
    its frames stand exactly where they are needed**, in ascending order; objects
    in them that are not initialized come from a `new` that is still there. -/
theorem placement_of_analyze (hlabels : LabelsInRange code) (hnonempty : code.instructions ≠ [])
    (h : analyze hierarchy owner method code true = .ok a) :
    Buries (Reachable code) code.instructions a.instructions ∧
      ∃ frames, a.frames = some frames ∧ (frames.map (·.target)).Pairwise (· < ·) ∧
        (∀ k, k ∈ frames.map (·.target) ↔ k < code.stop ∧ a.NeedsFrame k) ∧
        ∀ frame ∈ frames, ∀ label, .uninitialized label ∈ frame.locals ++ frame.stack →
          ∃ name, a.instructions[label]? = some (.type Opcode.new name) := by
  obtain ⟨initial, run, hframed⟩ := framed_of_analyze hnonempty h
  have hexplored := explored_of_run hlabels hnonempty (fun _ => not_isCall_of_analyze h)
    hframed.entry hframed.finished
  refine ⟨hframed.buries hexplored, framesOf code run, hframed.frames,
    pairwise_framesAt _ _ _, ?_, ?_⟩
  · intro k
    exact hframed.mem_targets_iff hexplored hlabels
  · intro frame hframe label hlabel
    exact hframed.exists_new hexplored hframe hlabel

/-- In a loop with unreachable code behind it, what is behind its start, its end
    and its handler has frames. -/
theorem placement_of_analyze_looping :
    LabelsInRange looping ∧ looping.instructions ≠ [] ∧
      ∃ a, analyze .trivial "A" loopingMethod looping true = .ok a ∧
        Buries (Reachable looping) looping.instructions a.instructions ∧
        ∃ frames, a.frames = some frames ∧ frames.map (·.target) = [3, 9, 11] ∧
          ∀ k, k ∈ [3, 9, 11] ↔ k < looping.stop ∧ a.NeedsFrame k := by
  obtain ⟨a, ha, hplaces⟩ := analyze_looping
  have hnonempty : looping.instructions ≠ [] := List.cons_ne_nil _ _
  obtain ⟨hburies, frames, hframes, -, hneeded, -⟩ :=
    placement_of_analyze labelsInRange_looping hnonempty ha
  rw [hframes, Option.map_some, Option.some.injEq] at hplaces
  refine ⟨labelsInRange_looping, hnonempty, a, ha, hburies, frames, hframes, hplaces, ?_⟩
  rwa [hplaces] at hneeded

end

end JvmClass
