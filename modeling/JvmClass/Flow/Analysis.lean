/-
  The sizes and the frames of a method body.

  * `analyze` interprets a method body and says how much stack and how many
    locals it needs; with frames, also which frame each place needs that
    control can jump to, and what becomes of unreachable code;
  * `Flow.bodyOf` and `Flow.entryState` are what a method body is interpreted
    with;
  * `Flow.maxLocals` is the number of local variable slots that instructions
    touch, and `Flow.framesAt` the list of frames.
-/
import JvmClass.Flow.DeadCode
import JvmClass.Flow.Worklist
import JvmClass.Frame.Delta

namespace JvmClass

/-- What an analysis found out about a method body. -/
structure Analysis where
  maxStack : UInt16
  maxLocals : UInt16
  /-- Present when frames were asked for. -/
  frames : Option (List Frame)
  /-- The instructions and the exception table, with unreachable code replaced
      when frames were asked for. -/
  instructions : List Instruction
  exceptionTable : List ExceptionHandler

namespace Flow

/-- How many local variable slots an instruction needs. -/
def localsTouched : Instruction → Nat
  | .var opcode index =>
    if opcode = Opcode.lload ∨ opcode = Opcode.dload ∨ opcode = Opcode.lstore ∨
        opcode = Opcode.dstore then
      index.toNat + 2
    else index.toNat + 1
  | .iinc index _ => index.toNat + 1
  | _ => 0

/-- How many local variable slots instructions need, at least `least`. -/
def maxLocals (least : Nat) (instructions : List Instruction) : Nat :=
  (instructions.map localsTouched).foldl max least

/-- The slots of the locals on entry, filled up to `count`. -/
def initialSlots (count : Nat) (initial : List VerificationType) : List Value :=
  let slots := initial.flatMap fun type =>
    if type.isWide then [.known type, .top] else [.known type]
  slots ++ List.replicate (count - slots.length) .top

/-- What the interpretation of `code` knows of it. -/
def bodyOf (hierarchy : Hierarchy) (owner : String) (code : Code) (computeFrames : Bool) : Body :=
  ⟨owner, code.instructions.toArray, code.exceptionTable, hierarchy, !computeFrames⟩

/-- How many local variable slots a body needs that is entered with `initial`. -/
def localsOf (initial : List VerificationType) (code : Code) : Nat :=
  maxLocals ((initial.map VerificationType.size).foldr (· + ·) 0) code.instructions

/-- The state that a body is entered with. -/
def entryState (initial : List VerificationType) (code : Code) (computeFrames : Bool) :
    FlowState :=
  ⟨initialSlots (localsOf initial code) initial, [], !computeFrames⟩

/-- Whether an instruction is part of a subroutine. -/
def isSubroutine (i : Instruction) : Bool :=
  i.opcode == Opcode.jsr || i.opcode == Opcode.jsrW || i.opcode == Opcode.ret

/-- The frame of an unreachable range: `athrow` finds an exception. -/
def deadFrame (target : Label) : Frame := ⟨target, [], [.object throwableClass]⟩

/-- The labels that need a frame if they were reached, or if an unreachable
    range starts there. -/
def frameLabels (reached : Array Bool) (code : Code) (table : List ExceptionHandler)
    (dead : List (Nat × Nat)) : List Label :=
  let live := (code.instructions.zipIdx.filter fun (_, index) => reached[index]? = some true)
  live.flatMap (·.1.targets) ++ dead.map (·.1) ++ table.map (·.handler)

/-- The frame at a label; an unreachable label has one only if it starts a
    range in `dead`. -/
def frameAt (entries : Array (Option FlowState)) (dead : List (Nat × Nat)) (label : Label) :
    Option Frame :=
  match entries[label]?.join with
  | some state => some (state.frame label)
  | none => if dead.any (·.1 == label) then some (deadFrame label) else none

/-- The frames at `labels`, each once and in ascending order. -/
def framesAt (entries : Array (Option FlowState)) (dead : List (Nat × Nat))
    (labels : List Label) : List Frame :=
  let marks := labels.foldl (fun marks label => marks.setIfInBounds label true)
    (Array.replicate entries.size false)
  (marks.toList.zipIdx.filter (·.1)).filterMap fun (_, label) => frameAt entries dead label

/-- The result of a finished interpretation with frames. -/
def withFrames (code : Code) (run : Run) : Nat × Analysis :=
  let reached := run.entries.map Option.isSome
  let dead := deadRanges reached.toList
  let instructions := bury reached code.instructions
  let table := removeRanges code.exceptionTable dead
  let frames := framesAt run.entries dead (frameLabels reached code table dead)
  (if dead.isEmpty then run.maxStack else max run.maxStack 1,
    ⟨0, 0, some frames, instructions, table⟩)

/-- Analyse a method body. -/
def analyzeBody (hierarchy : Hierarchy) (owner : String) (method : MethodRecord) (code : Code)
    (computeFrames : Bool) : Except Invalid Analysis := do
  let initial ← (initialLocals owner method.access method.name method.descriptor).mapError
    .badDescriptor
  let locals := localsOf initial code
  if locals > 0xFFFF then throw (.localSlots locals)
  if computeFrames && code.instructions.any isSubroutine then throw .subroutine
  let (maxStack, analysis) ←
    if code.instructions.isEmpty then
      pure (0, (⟨0, 0, if computeFrames then some [] else none, [], code.exceptionTable⟩ : Analysis))
    else
      let run ← run (bodyOf hierarchy owner code computeFrames) (entryState initial code computeFrames)
      if computeFrames then pure (withFrames code run)
      else pure (run.maxStack, ⟨0, 0, none, code.instructions, code.exceptionTable⟩)
  if maxStack > 0xFFFF then throw (.stackSlots maxStack)
  return { analysis with
    maxStack := UInt16.ofNat maxStack
    maxLocals := UInt16.ofNat locals }

end Flow

/-- Analyse the body of a method of the class `owner`. -/
def analyze (hierarchy : Hierarchy) (owner : String) (method : MethodRecord) (code : Code)
    (computeFrames : Bool) : Except Invalid Analysis :=
  (Flow.analyzeBody hierarchy owner method code computeFrames).mapError
    (.inMethod method.name method.descriptor)

end JvmClass
