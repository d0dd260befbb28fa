/-
  What an analysis depends on.

  * `Hierarchy.Agrees`: two hierarchies answer some questions alike;
  * `Run.visit_congr`, `Run.loop_congr`: an interpretation depends on the answers
    to the questions that it asks, step by step;
  * `analyze_congr`: so does the analysis of a method body.
-/
import JvmClass.Flow.Questions
import JvmClass.Proofs.Flow.Visits
import Mathlib.Data.List.TakeWhile

namespace JvmClass

/-- Two hierarchies give the same answers to `questions`. -/
def Hierarchy.Agrees (hierarchy other : Hierarchy) (questions : List Question) : Prop :=
  ∀ question ∈ questions, other.commonSuperClass question.1 question.2 =
    hierarchy.commonSuperClass question.1 question.2

namespace Hierarchy.Agrees

variable {hierarchy other : Hierarchy} {questions more : List Question}

theorem append : hierarchy.Agrees other (questions ++ more) ↔
    hierarchy.Agrees other questions ∧ hierarchy.Agrees other more :=
  List.forall_mem_append

theorem of_mem {α : Type} {f : α → List Question} {items : List α}
    (h : hierarchy.Agrees other (items.flatMap f)) {a : α} (ha : a ∈ items) :
    hierarchy.Agrees other (f a) :=
  fun question hmem => h question (List.mem_flatMap.mpr ⟨a, ha, hmem⟩)

end Hierarchy.Agrees

namespace Flow

variable {hierarchy other : Hierarchy}

/-! ## Merging -/

theorem mergeValue_congr {left right : Value}
    (h : ∀ question ∈ valueQuestion? left right, other.commonSuperClass question.1 question.2 =
      hierarchy.commonSuperClass question.1 question.2) :
    mergeValue other left right = mergeValue hierarchy left right := by
  unfold mergeValue
  split
  next => rfl
  next hne =>
    split
    next => rfl
    next => rfl
    next leftName rightName =>
      split
      next => rfl
      next harray =>
        have hask : valueQuestion? (.known (.object leftName)) (.known (.object rightName)) =
            some (leftName, rightName) := by
          unfold valueQuestion?
          rw [if_neg hne]
          exact if_neg harray
        rw [h _ hask]
    next => rfl

theorem mergeValues_congr {existing incoming : List Value}
    (h : hierarchy.Agrees other
      ((existing.zip incoming).filterMap fun (a, b) => valueQuestion? a b)) :
    mergeValues other existing incoming = mergeValues hierarchy existing incoming := by
  have hzip : List.zipWith (mergeValue other) existing incoming =
      List.zipWith (mergeValue hierarchy) existing incoming := by
    rw [← List.map_uncurry_zip_eq_zipWith, ← List.map_uncurry_zip_eq_zipWith]
    refine List.map_congr_left fun pair hpair => mergeValue_congr fun question hquestion => ?_
    exact h question (List.mem_filterMap.mpr ⟨pair, hpair, hquestion⟩)
  rw [mergeValues, mergeValues, hzip]

/-- Where no operands differ in size, there are questions about all of them. -/
theorem takeWhile_operands {existing incoming : FlowState}
    (h : (if existing.lenient then none
      else sizeMismatch? existing.stack incoming.stack) = none) :
    ((existing.stack.zip incoming.stack).reverse.takeWhile fun (a, b) =>
      existing.lenient || a.isWide == b.isWide) = (existing.stack.zip incoming.stack).reverse := by
  rw [List.takeWhile_eq_self_iff]
  intro pair hpair
  split at h
  next hlenient => simp [hlenient]
  next =>
    have hsame := List.find?_eq_none.mp h pair hpair
    simp only [bne_iff_ne, ne_eq, not_not] at hsame
    simp [hsame]

theorem mergeState_congr {existing incoming : FlowState}
    (h : hierarchy.Agrees other (stateQuestions existing incoming)) :
    mergeState other existing incoming = mergeState hierarchy existing incoming := by
  unfold mergeState
  split
  next hlength =>
    rw [stateQuestions, if_pos hlength] at h
    unfold mergeStacks
    split
    next => rfl
    next hnone =>
      rw [takeWhile_operands hnone, List.filterMap_append, Hierarchy.Agrees.append] at h
      have hstack : hierarchy.Agrees other
          ((existing.stack.zip incoming.stack).filterMap fun (a, b) => valueQuestion? a b) := by
        intro question hmem
        refine h.2 question ?_
        rwa [List.filterMap_reverse, List.mem_reverse]
      rw [mergeValues_congr h.1, mergeValues_congr hstack]
  next => rfl

/-! ## Runs -/

namespace Run

theorem pass_congr {run : Run} {edge : Label × FlowState}
    (h : hierarchy.Agrees other (passQuestions run edge)) :
    pass other run edge = pass hierarchy run edge := by
  obtain ⟨entries, queue, queued, maxStack⟩ := run
  obtain ⟨target, incoming⟩ := edge
  have hmerge : mergeEntry other entries[target]?.join incoming =
      mergeEntry hierarchy entries[target]?.join incoming := by
    unfold passQuestions at h
    dsimp only at h
    split at h
    next hnone => rw [hnone]; rfl
    next existing hsome =>
      rw [hsome, mergeEntry, mergeEntry, mergeState_congr h]
  simp only [pass, hmerge]

theorem passes_congr {run : Run} {edges : List (Label × FlowState)}
    (h : hierarchy.Agrees other (passesQuestions hierarchy run edges)) :
    edges.foldlM (pass other) run = edges.foldlM (pass hierarchy) run := by
  induction edges generalizing run with
  | nil => rfl
  | cons edge edges ih =>
    obtain ⟨hfirst, hrest⟩ := Hierarchy.Agrees.append.mp h
    rw [List.foldlM_cons, List.foldlM_cons, pass_congr hfirst]
    cases hpass : pass hierarchy run edge with
    | error cause => rfl
    | ok next =>
      rw [hpass] at hrest
      exact ih hrest

theorem execute_withHierarchy (body : Body) :
    Body.execute { body with hierarchy := other } = body.execute := rfl

theorem successors_withHierarchy (body : Body) :
    Body.successors { body with hierarchy := other } = body.successors := rfl

/-- **A visit depends on the answers to what it asks.** -/
theorem visit_congr {body : Body} {index : Label} {run : Run}
    (h : body.hierarchy.Agrees other (visitQuestions body index run)) :
    visit { body with hierarchy := other } index run = visit body index run := by
  obtain ⟨entries, queue, queued, maxStack⟩ := run
  unfold visitQuestions at h
  simp only [visit, execute_withHierarchy, successors_withHierarchy]
  cases hbefore : entries[index]?.join with
  | none => rfl
  | some before =>
    cases hinstruction : body.instructions[index]? with
    | none => rfl
    | some instruction =>
      simp only [hbefore, hinstruction] at h
      refine Result.bind_congr fun after hafter => Result.bind_congr fun edges hedges => ?_
      simp only [hafter, hedges] at h
      exact passes_congr h

theorem loopQuestions_of_pop? {body : Body} {run : Run} {index : Label} {queue : Queue}
    (h : run.queue.pop? = some (index, queue)) (fuel : Nat) :
    loopQuestions body (fuel + 1) run =
      visitQuestions body index { run with queue := queue } ++
        match visit body index { run with queue := queue } with
        | .ok next => loopQuestions body fuel next
        | .error _ => [] := by
  conv_lhs => unfold loopQuestions
  cases hvisit : visit body index { run with queue := queue } with
  | ok next => simp only [h, hvisit]
  | error cause => simp only [h, hvisit]

/-- **An interpretation depends on the answers to what it asks.** -/
theorem loop_congr {body : Body} {fuel : Nat} {run : Run}
    (h : body.hierarchy.Agrees other (loopQuestions body fuel run)) :
    loop { body with hierarchy := other } fuel run = loop body fuel run := by
  induction fuel generalizing run with
  | zero =>
    unfold loop
    cases run.queue.pop? <;> rfl
  | succ fuel ih =>
    cases hpop : run.queue.pop? with
    | none => rw [loop_of_pop?_none hpop, loop_of_pop?_none hpop]
    | some popped =>
      obtain ⟨index, queue⟩ := popped
      rw [loopQuestions_of_pop? hpop, Hierarchy.Agrees.append] at h
      rw [loop_of_pop? hpop, loop_of_pop? hpop, visit_congr h.1]
      refine Result.bind_congr fun next hnext => ih ?_
      have hrest := h.2
      rwa [hnext] at hrest

end Run

theorem run_congr {body : Body} {initial : FlowState}
    (h : body.hierarchy.Agrees other (runQuestions body initial)) :
    run { body with hierarchy := other } initial = run body initial := by
  unfold runQuestions at h
  unfold run
  exact Run.loop_congr h

end Flow

open JvmClass.Flow

/-! ## Analyses -/

/-- **The analysis of a method body depends on the answers to what it asks.** -/
theorem analyze_congr {hierarchy other : Hierarchy} {owner : String} {method : MethodRecord}
    {code : Code} {computeFrames : Bool}
    (h : hierarchy.Agrees other (questions hierarchy owner method code computeFrames)) :
    analyze other owner method code computeFrames =
      analyze hierarchy owner method code computeFrames := by
  suffices hbody : analyzeBody other owner method code computeFrames =
      analyzeBody hierarchy owner method code computeFrames by rw [analyze, hbody, analyze]
  unfold analyzeBody
  refine Result.bind_congr fun initial hinitial => ?_
  dsimp only
  refine ite_congr rfl (fun _ => Result.throw_bind_congr) fun hlocals => ?_
  refine ite_congr rfl (fun _ => Result.throw_bind_congr) fun hsubroutine => ?_
  refine ite_congr rfl (fun _ => rfl) fun hempty => ?_
  have hasked : ¬ (decide (localsOf initial code > 0xFFFF) ||
      computeFrames && code.instructions.any isSubroutine || code.instructions.isEmpty) = true := by
    simp [hlocals, hsubroutine, hempty]
  have hbody : bodyOf other owner code computeFrames =
      { bodyOf hierarchy owner code computeFrames with hierarchy := other } := rfl
  simp only [questions, Result.mapError_eq_ok.mp hinitial, if_neg hasked] at h
  rw [hbody, run_congr h]

end JvmClass
