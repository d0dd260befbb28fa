/-
  The questions that an analysis asks about classes.

  * a `Question` are two classes; the answer is the one that they have in
    common;
  * `Flow.visitQuestions` and `Flow.loopQuestions` go through an interpretation
    and list what is asked on the way, up to where it fails if it does;
  * `Flow.questions` are those of the analysis of a method body.
-/
import JvmClass.Flow.Analysis

namespace JvmClass

/-- Two classes that something is asked about. -/
abbrev Question := String × String

namespace Flow

/-- What is asked to merge two values. -/
def valueQuestion? (left right : Value) : Option Question :=
  if left = right then none
  else
    match left, right with
    | .known (.object left), .known (.object right) =>
      if isArrayName left || isArrayName right then none else some (left, right)
    | _, _ => none

/-- What is asked to merge a state into the one that an instruction was entered
    with before: about the locals and then about the operands, the lowest one
    first.  Operands that differ in size end that, unless the states are
    lenient. -/
def stateQuestions (existing incoming : FlowState) : List Question :=
  if existing.stack.length = incoming.stack.length then
    let operands := (existing.stack.zip incoming.stack).reverse.takeWhile fun (a, b) =>
      existing.lenient || a.isWide == b.isWide
    (existing.locals.zip incoming.locals ++ operands).filterMap fun (a, b) => valueQuestion? a b
  else []

/-- What is asked to pass a state on to an instruction. -/
def passQuestions (run : Run) (edge : Label × FlowState) : List Question :=
  match run.entries[edge.1]?.join with
  | none => []
  | some existing => stateQuestions existing edge.2

/-- What is asked to pass states on, one after the other. -/
def passesQuestions (hierarchy : Hierarchy) : Run → List (Label × FlowState) → List Question
  | _, [] => []
  | run, edge :: edges =>
    passQuestions run edge ++
      match Run.pass hierarchy run edge with
      | .ok next => passesQuestions hierarchy next edges
      | .error _ => []

/-- What is asked to run the instruction at `index`, which was taken from the
    queue. -/
def visitQuestions (body : Body) (index : Label) : Run → List Question
  | ⟨entries, queue, queued, maxStack⟩ =>
    match entries[index]?.join, body.instructions[index]? with
    | some before, some instruction =>
      match body.execute index instruction before with
      | .error _ => []
      | .ok after =>
        match body.successors index instruction before after with
        | .error _ => []
        | .ok edges => passesQuestions body.hierarchy ⟨entries, queue,
            queued.setIfInBounds index false, max maxStack (Body.stackAfter instruction after)⟩ edges
    | _, _ => []

/-- What is asked to run instructions until the queue is empty. -/
def loopQuestions (body : Body) : (fuel : Nat) → Run → List Question
  | fuel, run =>
    match run.queue.pop?, fuel with
    | none, _ => []
    | some _, 0 => []
    | some (index, queue), fuel + 1 =>
      visitQuestions body index { run with queue := queue } ++
        match Run.visit body index { run with queue := queue } with
        | .ok next => loopQuestions body fuel next
        | .error _ => []

/-- What is asked to interpret a method body. -/
def runQuestions (body : Body) (initial : FlowState) : List Question :=
  let count := body.instructions.size
  loopQuestions body (runLimit count) (.start count initial)

/-- What is asked to analyse a method body. -/
def questions (hierarchy : Hierarchy) (owner : String) (method : MethodRecord) (code : Code)
    (computeFrames : Bool) : List Question :=
  match initialLocals owner method.access method.name method.descriptor with
  | .error _ => []
  | .ok initial =>
    if localsOf initial code > 0xFFFF || computeFrames && code.instructions.any isSubroutine ||
        code.instructions.isEmpty then []
    else runQuestions (bodyOf hierarchy owner code computeFrames) (entryState initial code computeFrames)

end Flow

end JvmClass
