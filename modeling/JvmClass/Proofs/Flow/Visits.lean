/-
  The visits of an interpretation.

  * `Run.Visits`: which instructions are taken from the queue, one after the
    other, and which run that leads to; a loop that ends consists of visits
    (`visits_of_loop`);
  * `Run.Orderly`: the queue holds every instruction once that is marked, and
    all of them were reached; visits keep that (`Run.Orderly.visit`);
  * `Run.weight`: how often an instruction that was reached can still be taken
    from the queue.  A visit takes one from the weight of its instruction, and
    adds none to that of another one that was reached before (`Run.Rise`);
  * `Run.Orderly.visits`: so in a whole run each instruction loses as much weight
    as it was taken.
-/
import JvmClass.Proofs.Flow.Height
import JvmClass.Proofs.Flow.Locals
import JvmClass.Proofs.Flow.Worklist

namespace JvmClass.Flow.Run

/-- The run `run` comes to `next` when the instructions `taken` are taken from
    the queue, one after the other. -/
inductive Visits (body : Body) : (run : Run) → (taken : List Label) → (next : Run) → Prop
  | nil {run} : Visits body run [] run
  | cons {run middle next index queue taken} (hpop : run.queue.pop? = some (index, queue))
      (hvisit : visit body index { run with queue := queue } = .ok middle)
      (hrest : Visits body middle taken next) : Visits body run (index :: taken) next

section
variable {body : Body} {run final : Run}

theorem loop_of_pop?_none (h : run.queue.pop? = none) (fuel : Nat) :
    loop body fuel run = .ok run := by
  unfold loop
  rw [h]
  rfl

theorem loop_of_pop? {index : Label} {queue : Queue} (h : run.queue.pop? = some (index, queue))
    (fuel : Nat) :
    loop body (fuel + 1) run = visit body index { run with queue := queue } >>= loop body fuel := by
  conv_lhs => unfold loop
  simp only [h]

theorem visits_of_loop {fuel : Nat} (h : loop body fuel run = .ok final) :
    ∃ taken, Visits body run taken final := by
  induction fuel generalizing run with
  | zero =>
    cases hpop : run.queue.pop? with
    | none =>
      cases (loop_of_pop?_none hpop 0).symm.trans h
      exact ⟨[], .nil⟩
    | some popped =>
      unfold loop at h
      rw [hpop] at h
      cases h
  | succ fuel ih =>
    cases hpop : run.queue.pop? with
    | none =>
      cases (loop_of_pop?_none hpop _).symm.trans h
      exact ⟨[], .nil⟩
    | some popped =>
      obtain ⟨index, queue⟩ := popped
      rw [loop_of_pop? hpop] at h
      obtain ⟨middle, hvisit, hrest⟩ := Result.bind_eq_ok.mp h
      obtain ⟨taken, hvisits⟩ := ih hrest
      exact ⟨index :: taken, .cons hpop hvisit hvisits⟩

end

/-! ## The queue -/

/-- The queue is in order: it holds every instruction once that is marked, each
    of them was reached, and entries have slots for `locals` locals. -/
structure Orderly (body : Body) (locals : Nat) (run : Run) : Prop where
  entries : run.entries.size = body.instructions.size
  queued : run.queued.size = body.instructions.size
  nodup : run.queue.toList.Nodup
  mem_queue : ∀ i, i ∈ run.queue.toList ↔ run.Queued i
  reached : ∀ i, run.Queued i → ∃ state, run.entryAt i = some state
  boxed : ∀ i state, run.entryAt i = some state → state.Boxed locals

/-- How often an instruction that was reached can still be taken from the queue:
    whenever its entry changes, and now if it is in the queue. -/
def weight (run : Run) (i : Label) : Nat :=
  match run.entryAt i with
  | none => 0
  | some state => state.height + if run.queued[i]? = some true then 1 else 0

theorem weight_of_none {run : Run} {i : Label} (h : run.entryAt i = none) : run.weight i = 0 := by
  rw [weight, h]

theorem weight_of_some {run : Run} {i : Label} {state : FlowState} (h : run.entryAt i = some state) :
    run.weight i = state.height + if run.queued[i]? = some true then 1 else 0 := by
  rw [weight, h]

theorem weight_of_queued {run : Run} {i : Label} {state : FlowState}
    (h : run.entryAt i = some state) (hqueued : run.Queued i) : run.weight i = state.height + 1 := by
  rw [weight_of_some h]
  exact congrArg (state.height + ·) (if_pos hqueued)

theorem weight_of_idle {run : Run} {i : Label} {state : FlowState}
    (h : run.entryAt i = some state) (hidle : ¬ run.Queued i) : run.weight i = state.height := by
  rw [weight_of_some h]
  exact congrArg (state.height + ·) (if_neg hidle)

theorem weight_le {run : Run} {i : Label} {state : FlowState} (h : run.entryAt i = some state) :
    run.weight i ≤ state.height + 1 := by
  rw [weight_of_some h]
  split <;> omega

/-- What happens to an instruction between two runs, in which it is taken from
    the queue `spent` times: its weight shrinks by that, if it was reached before,
    and its stack keeps its height. -/
inductive Rise (locals spent : Nat) (run next : Run) (i : Label) : Prop
  | unreached (h : run.entryAt i = none) (h' : next.entryAt i = none) (hspent : spent = 0)
  | reached {state : FlowState} (h : run.entryAt i = none) (h' : next.entryAt i = some state)
      (hweight : spent + next.weight i ≤ 1 + 3 * (locals + state.stack.length))
  | kept {before after : FlowState} (h : run.entryAt i = some before)
      (h' : next.entryAt i = some after) (hlength : after.stack.length = before.stack.length)
      (hweight : spent + next.weight i ≤ run.weight i)

section
variable {body : Body} {locals : Nat} {run middle next : Run}

theorem Rise.refl (locals : Nat) (run : Run) (i : Label) : Rise locals 0 run run i := by
  cases h : run.entryAt i with
  | none => exact .unreached h h rfl
  | some state => exact .kept h h rfl (Nat.le_of_eq (Nat.zero_add _))

theorem Rise.trans {spent spent' : Nat} {i : Label} (h : Rise locals spent run middle i)
    (h' : Rise locals spent' middle next i) : Rise locals (spent + spent') run next i := by
  cases h with
  | unreached hrun hmiddle hspent =>
    subst hspent
    rw [Nat.zero_add]
    cases h' with
    | unreached _ hnext hspent => exact .unreached hrun hnext hspent
    | reached _ hnext hweight => exact .reached hrun hnext hweight
    | kept hsome => exact nomatch hmiddle.symm.trans hsome
  | reached hrun hmiddle hweight =>
    cases h' with
    | unreached hnone | reached hnone => exact nomatch hmiddle.symm.trans hnone
    | kept hsome hnext hlength hweight' =>
      cases hmiddle.symm.trans hsome
      refine .reached hrun hnext ?_
      rw [hlength]
      omega
  | kept hrun hmiddle hlength hweight =>
    cases h' with
    | unreached hnone | reached hnone => exact nomatch hmiddle.symm.trans hnone
    | kept hsome hnext hlength' hweight' =>
      cases hmiddle.symm.trans hsome
      exact .kept hrun hnext (hlength'.trans hlength) (by omega)

theorem Rise.of_eq {i : Label} (hentry : next.entryAt i = run.entryAt i)
    (hqueued : next.Queued i ↔ run.Queued i) : Rise locals 0 run next i := by
  cases h : run.entryAt i with
  | none => exact .unreached h (hentry.trans h) rfl
  | some state =>
    refine .kept h (hentry.trans h) rfl (Nat.le_of_eq ?_)
    rw [weight_of_some h, weight_of_some (hentry.trans h), Nat.zero_add]
    exact congrArg (state.height + ·) (if_congr hqueued rfl rfl)

/-- **A pass keeps the queue in order.** -/
theorem Orderly.pass (hrun : run.Orderly body locals) {target : Label} {incoming : FlowState}
    (htarget : target < body.instructions.size) (hincoming : incoming.Boxed locals)
    (h : Run.pass .trivial run (target, incoming) = .ok next) : next.Orderly body locals := by
  obtain ⟨state, news, hmerge, ⟨rfl, rfl⟩ | ⟨rfl, -, hentries, hqueue⟩⟩ := pass_cases h
  · exact hrun
  have hentry (i : Label) := entryAt_set (i := i) (hrun.entries ▸ htarget) hentries
  obtain ⟨hsize, hqueued, -⟩ := queued_of_pass (hrun.queued ▸ htarget) hqueue
  refine ⟨?_, hsize.trans hrun.queued, ?_, ?_, ?_, ?_⟩
  · rw [hentries, Array.size_setIfInBounds, hrun.entries]
  · rcases hqueue with ⟨-, hsame, -⟩ | ⟨hidle, hpush, -⟩
    · exact hsame ▸ hrun.nodup
    · rw [hpush, Queue.toList_push, ← List.concat_eq_append]
      exact hrun.nodup.concat fun hmem => hidle ((hrun.mem_queue target).mp hmem)
  · intro i
    rw [hqueued i, ← hrun.mem_queue i]
    rcases hqueue with ⟨hmem, hsame, -⟩ | ⟨-, hpush, -⟩
    · rw [hsame]
      exact ⟨.inr, fun h => h.elim (fun heq => heq ▸ (hrun.mem_queue target).mpr hmem) id⟩
    · rw [hpush, Queue.toList_push, List.mem_append, List.mem_singleton]
      exact or_comm
  · intro i hi
    rw [hentry]
    split
    next => exact ⟨state, rfl⟩
    next hne => exact hrun.reached i (((hqueued i).mp hi).resolve_left (Ne.symm hne))
  · intro i s hs
    rw [hentry] at hs
    split at hs
    next =>
      cases hs
      rcases mergeEntry_eq_ok hmerge with ⟨-, rfl, -⟩ | ⟨existing, hsome, hmerged, -⟩
      · exact hincoming
      · exact (hrun.boxed target existing hsome).of_mergeState hmerged
    next => exact hrun.boxed i s hs

/-- **A pass raises entries.** One that it changes loses in height what the visit
    costs for which it is queued. -/
theorem Orderly.rise_pass (hrun : run.Orderly body locals) {target : Label} {incoming : FlowState}
    (htarget : target < body.instructions.size) (hincoming : incoming.Boxed locals)
    (h : Run.pass .trivial run (target, incoming) = .ok next) (i : Label) :
    Rise locals 0 run next i := by
  obtain ⟨state, news, hmerge, ⟨rfl, rfl⟩ | ⟨rfl, -, hentries, hqueue⟩⟩ := pass_cases h
  · exact .refl locals next i
  have hentry := entryAt_set (i := i) (hrun.entries ▸ htarget) hentries
  obtain ⟨-, hqueued, -⟩ := queued_of_pass (hrun.queued ▸ htarget) hqueue
  by_cases hne : target = i
  · subst hne
    rw [if_pos rfl] at hentry
    have hweight := weight_of_queued hentry ((hqueued target).mpr (.inl rfl))
    rcases mergeEntry_eq_ok hmerge with ⟨hnone, rfl, -⟩ | ⟨existing, hsome, hmerged, hnews⟩
    · refine .reached hnone hentry ?_
      have hheight := state.height_le
      rw [hincoming.length] at hheight
      omega
    · obtain ⟨hlength, hsame | hheight⟩ :=
        height_of_mergeState (hrun.boxed target existing hsome).strict hmerged
      · exact absurd hsame (by simpa using hnews.symm)
      · refine .kept hsome hentry hlength ?_
        rw [hweight, weight_of_some hsome]
        omega
  · rw [if_neg hne] at hentry
    exact .of_eq hentry ((hqueued i).trans ⟨fun h => h.resolve_left (Ne.symm hne), .inr⟩)

theorem Orderly.passes {edges : List (Label × FlowState)} (hrun : run.Orderly body locals)
    (hedges : ∀ edge ∈ edges, edge.1 < body.instructions.size ∧ edge.2.Boxed locals)
    (h : edges.foldlM (Run.pass .trivial) run = .ok next) :
    next.Orderly body locals ∧ ∀ i, Rise locals 0 run next i := by
  induction edges generalizing run with
  | nil =>
    cases h
    exact ⟨hrun, .refl locals next⟩
  | cons edge edges ih =>
    obtain ⟨middle, hpass, hrest⟩ := Result.bind_eq_ok.mp h
    obtain ⟨⟨htarget, hboxed⟩, hedges⟩ := List.forall_mem_cons.mp hedges
    obtain ⟨hnext, hrise⟩ := ih (hrun.pass htarget hboxed hpass) hedges hrest
    exact ⟨hnext, fun i => (hrun.rise_pass htarget hboxed hpass i).trans (hrise i)⟩

/-! ## Visits -/

/-- An instruction that is taken from the queue is marked and was reached. -/
theorem Orderly.reached_of_pop? (hrun : run.Orderly body locals) {index : Label} {queue : Queue}
    (hpop : run.queue.pop? = some (index, queue)) :
    run.Queued index ∧ ∃ state, run.entryAt index = some state := by
  have hqueued : run.Queued index := by
    rw [← hrun.mem_queue, Queue.toList_of_pop? hpop]
    exact .head _
  exact ⟨hqueued, hrun.reached index hqueued⟩

/-- **Taking an instruction from the queue costs it one visit**, and keeps the
    rest of the queue in order. -/
theorem Orderly.take (hrun : run.Orderly body locals) {index : Label} {queue : Queue}
    (hpop : run.queue.pop? = some (index, queue)) (maxStack : Nat) :
    Orderly body locals ⟨run.entries, queue, run.queued.setIfInBounds index false, maxStack⟩ ∧
      ∀ i, Rise locals ([index].count i) run
        ⟨run.entries, queue, run.queued.setIfInBounds index false, maxStack⟩ i := by
  have hlist := Queue.toList_of_pop? hpop
  have hclear := run.queued_clear index
  obtain ⟨hnot, hnodup⟩ := List.nodup_cons.mp (hlist ▸ hrun.nodup)
  have hmem (i : Label) : i = index ∨ i ∈ queue.toList ↔ run.Queued i := by
    rw [← hrun.mem_queue, hlist, List.mem_cons]
  refine ⟨⟨hrun.entries, ?_, hnodup, fun i => ?_, fun i hi => ?_, hrun.boxed⟩, fun i => ?_⟩
  · rw [Array.size_setIfInBounds, hrun.queued]
  · refine .trans ?_ (hclear i).symm
    rw [← hmem i]
    exact ⟨fun hi => ⟨fun heq => hnot (heq ▸ hi), .inr hi⟩, fun hi => hi.2.resolve_left hi.1⟩
  · exact hrun.reached i ((hclear i).mp hi).2
  · by_cases heq : index = i
    · subst heq
      obtain ⟨hqueued, state, hstate⟩ := hrun.reached_of_pop? hpop
      refine .kept hstate hstate rfl ?_
      rw [weight_of_queued hstate hqueued, List.count_singleton_self, Nat.add_comm]
      exact Nat.succ_le_succ (Nat.le_of_eq (weight_of_idle hstate fun h => ((hclear index).mp h).1 rfl))
    · rw [List.count_singleton, if_neg (by simpa using heq)]
      exact .of_eq rfl ((hclear i).trans ⟨fun h => h.2, fun h => ⟨Ne.symm heq, h⟩⟩)

/-- **A visit keeps the queue in order**, and costs its instruction one visit. -/
theorem Orderly.visit (hclosed : body.Closed) (htrivial : body.hierarchy = .trivial)
    (hrun : run.Orderly body locals) {index : Label} {queue : Queue}
    (hpop : run.queue.pop? = some (index, queue))
    (h : Run.visit body index { run with queue := queue } = .ok next) :
    next.Orderly body locals ∧ ∀ i, Rise locals ([index].count i) run next i := by
  rcases visit_cases h with
    ⟨before, instruction, after, edges, hbefore, hinstruction, hexecute, hedges, hpasses⟩ | ⟨-, rfl⟩
  · rw [htrivial] at hpasses
    obtain ⟨htaken, htake⟩ := hrun.take hpop (max run.maxStack (Body.stackAfter instruction after))
    have hboxed := hrun.boxed index before hbefore
    obtain ⟨hnext, hrise⟩ := htaken.passes (fun edge hmem =>
      ⟨Body.lt_of_mem_successors hclosed hinstruction hedges hmem,
        Body.boxed_successors hboxed (Body.boxed_execute hboxed hexecute) hedges hmem⟩) hpasses
    exact ⟨hnext, fun i => (htake i).trans (hrise i)⟩
  · exact hrun.take hpop run.maxStack

/-- Visits keep the queue in order, and cost each instruction as many visits as
    it was taken. -/
theorem Orderly.visits (hclosed : body.Closed) (htrivial : body.hierarchy = .trivial)
    {taken : List Label} (hvisits : Visits body run taken next) (hrun : run.Orderly body locals) :
    next.Orderly body locals ∧ ∀ i, Rise locals (taken.count i) run next i := by
  induction hvisits with
  | nil => exact ⟨hrun, .refl locals _⟩
  | @cons _ _ _ index _ taken hpop hvisit _ ih =>
    obtain ⟨hmiddle, hrise⟩ := hrun.visit hclosed htrivial hpop hvisit
    obtain ⟨hnext, hrise'⟩ := ih hmiddle
    refine ⟨hnext, fun i => ?_⟩
    rw [← List.singleton_append, List.count_append]
    exact (hrise i).trans (hrise' i)

end

end JvmClass.Flow.Run
