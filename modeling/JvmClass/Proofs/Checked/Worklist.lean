/-
  The interpretation of a method body, without an index out of range.

  * `Checked.pass`, `Checked.visit` and `Checked.interpret` look out for every index of
    an entry, a mark and an instruction;
  * `Run.Inside`: there is an entry and a mark for every instruction, and the
    queue holds labels of instructions; a pass and a visit keep that;
  * `Checked.interpret_eq`: a body whose labels lie inside it is interpreted without an
    index out of range, in lenient states and in strict ones.
-/
import JvmClass.Proofs.Checked.State
import JvmClass.Proofs.Flow.Edges
import JvmClass.Proofs.Flow.Worklist

namespace JvmClass

open JvmClass.Flow

/-! ## Runs inside a body -/

/-- There is an entry and a mark for each of `count` instructions, and those in
    the queue are among them. -/
structure Flow.Run.Inside (count : Nat) (run : Run) : Prop where
  entries : run.entries.size = count
  queued : run.queued.size = count
  queue : ∀ label ∈ run.queue.toList, label < count

namespace Flow.Run.Inside

variable {count : Nat} {run next : Run}

theorem start (h : 0 < count) (initial : FlowState) : (Run.start count initial).Inside count where
  entries := by simp [Run.start]
  queued := by simp [Run.start]
  queue := by
    intro label hlabel
    obtain rfl := List.mem_singleton.mp hlabel
    exact h

theorem pass {hierarchy : Hierarchy} {edge : Label × FlowState} (hrun : run.Inside count)
    (hedge : edge.1 < count) (h : Run.pass hierarchy run edge = .ok next) : next.Inside count := by
  obtain ⟨state, news, -, ⟨-, rfl⟩ | ⟨-, -, hentries, hqueue⟩⟩ := Run.pass_cases h
  · exact hrun
  have hsize : next.entries.size = count := by
    rw [hentries, Array.size_setIfInBounds, hrun.entries]
  rcases hqueue with ⟨-, hqueue, hmarks⟩ | ⟨-, hqueue, hmarks⟩
  · exact ⟨hsize, hmarks ▸ hrun.queued, hqueue ▸ hrun.queue⟩
  · refine ⟨hsize, by rw [hmarks, Array.size_setIfInBounds, hrun.queued], fun label hlabel => ?_⟩
    rw [hqueue, Queue.toList_push] at hlabel
    rcases List.mem_append.mp hlabel with hmem | hmem
    · exact hrun.queue label hmem
    · obtain rfl := List.mem_singleton.mp hmem
      exact hedge

theorem passes {hierarchy : Hierarchy} {edges : List (Label × FlowState)} (hrun : run.Inside count)
    (hedges : ∀ edge ∈ edges, edge.1 < count)
    (h : edges.foldlM (Run.pass hierarchy) run = .ok next) : next.Inside count := by
  induction edges generalizing run with
  | nil => cases h; exact hrun
  | cons edge edges ih =>
    obtain ⟨hedge, hedges⟩ := List.forall_mem_cons.mp hedges
    obtain ⟨middle, hpass, hrest⟩ := Result.bind_eq_ok.mp h
    exact ih (hrun.pass hedge hpass) hedges hrest

/-- A run from whose queue an instruction was taken, with its mark cleared. -/
theorem take (hrun : run.Inside count) {index : Label} {queue : Queue}
    (hpop : run.queue.pop? = some (index, queue)) (maxStack : Nat) :
    index < count ∧ Run.Inside count
      ⟨run.entries, queue, run.queued.setIfInBounds index false, maxStack⟩ := by
  have hqueue := hrun.queue
  rw [Queue.toList_of_pop? hpop, List.forall_mem_cons] at hqueue
  exact ⟨hqueue.1, hrun.entries, by rw [Array.size_setIfInBounds, hrun.queued], hqueue.2⟩

theorem visit {body : Body} (hclosed : body.Closed) (hrun : run.Inside body.instructions.size)
    {index : Label} {queue : Queue} (hpop : run.queue.pop? = some (index, queue))
    (h : Run.visit body index { run with queue := queue } = .ok next) :
    next.Inside body.instructions.size := by
  rcases Run.visit_cases h with
    ⟨before, instruction, after, edges, -, hinstruction, -, hedges, hpasses⟩ | ⟨-, rfl⟩
  · exact (hrun.take hpop _).2.passes
      (fun _ => Body.lt_of_mem_successors hclosed hinstruction hedges) hpasses
  · exact (hrun.take hpop _).2

theorem of_run {body : Body} (hclosed : body.Closed) (hpos : 0 < body.instructions.size)
    {initial : FlowState} (h : Flow.run body initial = .ok next) :
    next.Inside body.instructions.size :=
  (Run.loop_induction (fun _ _ _ _ hrun hpop hvisit => hrun.visit hclosed hpop hvisit)
    (.start hpos initial) h).1

end Flow.Run.Inside

namespace Checked

/-! ## One instruction -/

/-- Pass a state on to an instruction. -/
def pass (hierarchy : Hierarchy) (run : Run) (edge : Label × FlowState) : Checked Invalid Run := do
  let (target, incoming) := edge
  let entry ← found run.entries[target]?
  match mergeEntry hierarchy entry incoming with
  | .error cause => throw (.atInstruction target cause)
  | .ok (_, false) => return run
  | .ok (state, true) =>
    let entries := run.entries.setIfInBounds target (some state)
    if ← found run.queued[target]? then return { run with entries }
    else
      return { run with
        entries
        queue := run.queue.push target
        queued := run.queued.setIfInBounds target true }

/-- Run the instruction at `index`, which was taken from the queue. -/
def visit (body : Body) (index : Label) (run : Run) : Checked Invalid Run := do
  require (index < run.queued.size)
  let queued := run.queued.setIfInBounds index false
  match ← found run.entries[index]? with
  | none => return { run with queued }
  | some before =>
    let (_, after) ← ExceptT.adapt (.atInstruction index)
      (execute body.owner body.instructions index before)
    let instruction ← found body.instructions[index]?
    let edges ← ofExcept (body.successors index instruction before after)
    edges.foldlM (pass body.hierarchy)
      { run with queued, maxStack := max run.maxStack (Body.stackAfter instruction after) }

/-- Run instructions until the queue is empty, at most `fuel` of them. -/
def loop (body : Body) : (fuel : Nat) → Run → Checked Invalid Run
  | fuel, run =>
    match run.queue.pop?, fuel with
    | none, _ => return run
    | some (index, _), 0 => do
      require (index < run.queued.size)
      throw .noConvergence
    | some (index, queue), fuel + 1 => do
      let next ← visit body index { run with queue := queue }
      loop body fuel next

/-- Interpret a method body that is entered with `initial`. -/
def interpret (body : Body) (initial : FlowState) : Checked Invalid Run := do
  require (0 < body.instructions.size)
  loop body (runLimit body.instructions.size) (Run.start body.instructions.size initial)

theorem pass_eq {hierarchy : Hierarchy} {count : Nat} {run : Run} (hrun : run.Inside count)
    {edge : Label × FlowState} (hedge : edge.1 < count) :
    pass hierarchy run edge = ofExcept (Run.pass hierarchy run edge) := by
  obtain ⟨entries, queue, queued, maxStack⟩ := run
  obtain ⟨target, incoming⟩ := edge
  obtain ⟨entry, hentry⟩ : ∃ entry, entries[target]? = some entry :=
    ⟨_, Array.getElem?_eq_getElem (hrun.entries ▸ hedge)⟩
  obtain ⟨mark, hmark⟩ : ∃ mark, queued[target]? = some mark :=
    ⟨_, Array.getElem?_eq_getElem (hrun.queued ▸ hedge)⟩
  unfold pass Run.pass
  simp only [hentry, hmark, found, pure_bind, Option.join_some, Option.some.injEq]
  cases mergeEntry hierarchy entry incoming with
  | error cause => rfl
  | ok merged =>
    obtain ⟨state, news⟩ := merged
    cases news with
    | false => rfl
    | true => cases mark <;> rfl

theorem visit_eq {body : Body} (hclosed : body.Closed) {run : Run} {index : Label} {queue : Queue}
    (hrun : run.Inside body.instructions.size) (hpop : run.queue.pop? = some (index, queue)) :
    visit body index { run with queue := queue } =
      ofExcept (Run.visit body index { run with queue := queue }) := by
  obtain ⟨entries, queue', queued, maxStack⟩ := run
  obtain ⟨hindex, -⟩ := hrun.take hpop 0
  obtain ⟨entry, hentry⟩ : ∃ entry, entries[index]? = some entry :=
    ⟨_, Array.getElem?_eq_getElem (hrun.entries ▸ hindex)⟩
  obtain ⟨instruction, hinstruction⟩ : ∃ instruction, body.instructions[index]? = some instruction :=
    ⟨_, Array.getElem?_eq_getElem hindex⟩
  unfold visit Run.visit
  rw [require_of (show index < queued.size from hrun.queued ▸ hindex)]
  simp only [hentry, hinstruction, found, pure_bind, Option.join_some]
  cases entry with
  | none => rfl
  | some before =>
    simp only [execute_eq hinstruction, ofStep, Body.execute]
    cases hexecute : Flow.execute body.owner body.instructions index instruction before with
    | error cause => rfl
    | ok result =>
      obtain ⟨_, after⟩ := result
      refine bind_ofExcept (x := body.successors index instruction before after)
        (g := fun edges => edges.foldlM (Run.pass body.hierarchy) _) fun edges hedges => ?_
      have hinside : ∀ edge ∈ edges, edge.1 < body.instructions.size := fun _ hedge =>
        Body.lt_of_mem_successors hclosed hinstruction hedges hedge
      exact foldlM_ofExcept (fun s edge hedge hs => pass_eq hs (hinside edge hedge))
        (fun s edge hedge hs t ht => hs.pass (hinside edge hedge) ht) (hrun.take hpop _).2

/-! ## Whole runs -/

theorem loop_eq {body : Body} (hclosed : body.Closed) (fuel : Nat) {run : Run}
    (hrun : run.Inside body.instructions.size) :
    loop body fuel run = ofExcept (Run.loop body fuel run) := by
  induction fuel generalizing run with
  | zero =>
    unfold loop Run.loop
    cases hpop : run.queue.pop? with
    | none => rfl
    | some next =>
      obtain ⟨hindex, -⟩ := hrun.take hpop 0
      dsimp only
      rw [require_of (hrun.queued ▸ hindex)]
      rfl
  | succ fuel ih =>
    unfold loop Run.loop
    cases hpop : run.queue.pop? with
    | none => rfl
    | some next =>
      dsimp only
      rw [visit_eq hclosed hrun hpop]
      exact bind_ofExcept fun run' hvisit => ih (hrun.visit hclosed hpop hvisit)

/-- **A body whose labels lie inside it is interpreted without an index out of
    range.** -/
theorem interpret_eq {body : Body} (hclosed : body.Closed) (hpos : 0 < body.instructions.size)
    (initial : FlowState) : interpret body initial = ofExcept (Flow.run body initial) := by
  unfold interpret
  rw [require_of hpos, pure_bind]
  exact loop_eq hclosed _ (.start hpos initial)

end Checked

end JvmClass
