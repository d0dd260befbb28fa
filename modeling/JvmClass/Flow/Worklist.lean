/-
  The abstract interpretation of a method body.

  * `Flow.successors` are the states that an instruction passes on, to the
    handlers around it, to its branch targets and to the next instruction;
  * a `Flow.Run` holds the states that instructions are entered with so far
    and the instructions that have to be run, again if their state changed;
  * `Flow.run` goes on until none is left, or too many have been run.
-/
import JvmClass.Flow.Merge

namespace JvmClass.Flow

/-- The class that a handler of all exceptions catches. -/
def throwableClass : String := "java/lang/Throwable"

/-- What the interpretation of a method body needs to know of it. -/
structure Body where
  owner : String
  instructions : Array Instruction
  handlers : List ExceptionHandler
  hierarchy : Hierarchy
  /-- States are lenient, and running off the end of the code is allowed. -/
  lenient : Bool

namespace Body

variable (body : Body)

/-- The states that the handlers around an instruction are entered with: with
    the locals before it and with those after it. -/
def handlerEdges (index : Label) (before after : FlowState) : List (Label × FlowState) :=
  (body.handlers.filter fun h => h.start ≤ index && index < h.stop).flatMap fun h =>
    let stack := [Value.object (h.catchType.getD throwableClass)]
    [(h.handler, { before with stack := stack }),
      (h.handler, { before with locals := after.locals, stack := stack })]

/-- The states that the branch targets of an instruction are entered with;
    `jsr` pushes a return address. -/
def branchEdges (instruction : Instruction) (after : FlowState) : List (Label × FlowState) :=
  match instruction with
  | .jump opcode target =>
    if opcode = Opcode.jsr ∨ opcode = Opcode.jsrW then
      [(target, { after with stack := .returnAddress :: after.stack })]
    else [(target, after)]
  | _ => instruction.targets.map fun target => (target, after)

/-- The state that the next instruction is entered with. -/
def nextEdge (index : Label) (instruction : Instruction) (after : FlowState) :
    Except Invalid (List (Label × FlowState)) :=
  if instruction.endsBlock then return []
  else if index + 1 < body.instructions.size then return [(index + 1, after)]
  else if body.lenient then return []
  else throw (.atInstruction index .fallsOff)

/-- The states that an instruction passes on. -/
def successors (index : Label) (instruction : Instruction) (before after : FlowState) :
    Except Invalid (List (Label × FlowState)) := do
  let next ← body.nextEdge index instruction after
  return body.handlerEdges index before after ++ branchEdges instruction after ++ next

/-- The largest stack right after an instruction, on its way to a branch
    target or not. -/
def stackAfter (instruction : Instruction) (after : FlowState) : Nat :=
  ((branchEdges instruction after).map (·.2.stackSize)).foldl max after.stackSize

/-- The state after the instruction at `index`. -/
def execute (index : Label) (instruction : Instruction) (before : FlowState) :
    Except Invalid FlowState :=
  match Flow.execute body.owner body.instructions index instruction before with
  | .ok (_, after) => return after
  | .error cause => throw (.atInstruction index cause)

end Body

/-- A queue, first in, first out. -/
structure Queue where
  front : List Label
  back : List Label

namespace Queue

/-- The elements, the first one first. -/
def toList (queue : Queue) : List Label := queue.front ++ queue.back.reverse

/-- Add an element at the end. -/
def push (queue : Queue) (label : Label) : Queue := { queue with back := label :: queue.back }

/-- The first element and the queue without it. -/
def pop? (queue : Queue) : Option (Label × Queue) :=
  match queue.front with
  | label :: front => some (label, { queue with front := front })
  | [] =>
    match queue.back.reverse with
    | label :: front => some (label, ⟨front, []⟩)
    | [] => none

end Queue

/-- An interpretation under way. -/
structure Run where
  /-- The state that each instruction is entered with, if it was reached. -/
  entries : Array (Option FlowState)
  /-- The instructions to run. -/
  queue : Queue
  /-- Whether an instruction is in the queue. -/
  queued : Array Bool
  /-- The largest stack so far. -/
  maxStack : Nat

namespace Run

/-- The start: the first of `count` instructions is entered with `initial`. -/
def start (count : Nat) (initial : FlowState) : Run where
  entries := (Array.replicate count none).setIfInBounds 0 (some initial)
  queue := ⟨[0], []⟩
  queued := (Array.replicate count false).setIfInBounds 0 true
  maxStack := 0

/-- Pass a state on to an instruction. -/
def pass (hierarchy : Hierarchy) : Run → Label × FlowState → Except Invalid Run
  | ⟨entries, queue, queued, maxStack⟩, (target, incoming) =>
    match mergeEntry hierarchy entries[target]?.join incoming with
    | .error cause => throw (.atInstruction target cause)
    | .ok (_, false) => return ⟨entries, queue, queued, maxStack⟩
    | .ok (state, true) =>
      let entries := entries.setIfInBounds target (some state)
      if queued[target]? = some true then return ⟨entries, queue, queued, maxStack⟩
      else return ⟨entries, queue.push target, queued.setIfInBounds target true, maxStack⟩

/-- Run the instruction at `index`, which was taken from the queue. -/
def visit (body : Body) (index : Label) : Run → Except Invalid Run
  | ⟨entries, queue, queued, maxStack⟩ =>
    let queued := queued.setIfInBounds index false
    match entries[index]?.join, body.instructions[index]? with
    | some before, some instruction => do
      let after ← body.execute index instruction before
      let maxStack := max maxStack (Body.stackAfter instruction after)
      let edges ← body.successors index instruction before after
      edges.foldlM (pass body.hierarchy) ⟨entries, queue, queued, maxStack⟩
    | _, _ => return ⟨entries, queue, queued, maxStack⟩

/-- Run instructions until the queue is empty, at most `fuel` of them. -/
def loop (body : Body) : (fuel : Nat) → Run → Except Invalid Run
  | fuel, run =>
    match run.queue.pop?, fuel with
    | none, _ => return run
    | some _, 0 => throw .noConvergence
    | some (index, queue), fuel + 1 => do
      let next ← visit body index { run with queue := queue }
      loop body fuel next

end Run

/-- How many instructions may be run for a body of `count`. -/
def runLimit (count : Nat) : Nat := max (count * 64) 100000

/-- Interpret a method body that is entered with `initial`. -/
def run (body : Body) (initial : FlowState) : Except Invalid Run :=
  let count := body.instructions.size
  Run.loop body (runLimit count) (Run.start count initial)

end JvmClass.Flow
