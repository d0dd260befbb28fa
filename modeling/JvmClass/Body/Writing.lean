/-
  Writing method bodies.

  * `Body.checkLabels` says whether the labels of jumps and of the exception
    table lie inside a body;
  * `Body.prepare` is the body that options ask to be written in place of a
    given one;
  * `Body.write` writes the content of a `Code` attribute.
-/
import JvmClass.Attribute.Binary
import JvmClass.Bytecode.Writing
import JvmClass.Flow.Analysis
import JvmClass.Frame.Binary
import JvmClass.Options

namespace JvmClass.Body

open Bytes Linking

/-- Check the branch targets of the instructions from the label `index` on, in
    a body that ends at the label `stop`. -/
def checkTargets (stop : Label) (index : Label) : List Instruction → Except Invalid Unit
  | [] => return ()
  | instruction :: rest =>
    match instruction.targets.find? fun target => target ≥ stop with
    | some target => throw (.jumpTarget index target)
    | none => checkTargets stop (index + 1) rest

/-- Check an entry of the exception table of a body that ends at the label
    `stop`. -/
def checkHandler (stop : Label) (h : ExceptionHandler) : Except Invalid Unit :=
  if h.start ≥ h.stop ∨ h.stop > stop ∨ h.handler ≥ stop then
    throw (.handlerRange h.start h.stop h.handler stop)
  else return ()

/-- Check that branch targets and exception handlers lie inside a body. -/
def checkLabels (code : Code) : Except Invalid Unit := do
  checkTargets code.stop 0 code.instructions
  code.exceptionTable.forM (checkHandler code.stop)

/-- The first major version with stack map frames. -/
def framesVersion : UInt16 := 50

/-- The body that `options` ask for in place of `code`: with computed sizes
    and, from version 50 on, with computed frames.  A body that cannot be
    analysed stays as it is. -/
def prepare (options : EncodeOptions) (hierarchy : Hierarchy) (owner : String)
    (majorVersion : UInt16) (method : MethodRecord) (code : Code) : Code :=
  if options.computeMaxs || options.computeFrames then
    match analyze hierarchy owner method code
        (options.computeFrames && framesVersion ≤ majorVersion) with
    | .error _ => code
    | .ok analysis =>
      { code with
        maxStack := analysis.maxStack
        maxLocals := analysis.maxLocals
        instructions := analysis.instructions
        exceptionTable := analysis.exceptionTable
        frames := match analysis.frames with
          | some [] => none
          | some frames => some (.expanded frames)
          | none => if options.computeFrames then none else code.frames }
  else code

variable (layout : Layout)

/-- Write an entry of an exception table. -/
def writeHandler (handler : ExceptionHandler) : Linking Bytes := do
  let start ← layout.offset handler.start
  let stop ← layout.offset handler.stop
  let target ← layout.offset handler.handler
  return u2 start ++ u2 stop ++ u2 target ++ u2 (← Pool.Intern.classRef? handler.catchType)

/-- Write a line number. -/
def writeLineNumber (lineNumber : LineNumber) : Except Invalid Bytes := do
  return u2 (← layout.offset lineNumber.start) ++ u2 lineNumber.line

/-- Write a counted list of line numbers. -/
def writeLineNumbers (lineNumbers : List LineNumber) : Linking Bytes := do
  let count ← count lineNumbers.length "line numbers"
  let entries ← Linking.ofExcept (lineNumbers.mapM (writeLineNumber layout))
  return u2 count ++ entries.flatten

/-- Write a local variable. -/
def writeVariable (entry : LocalVariable) : Linking Bytes := do
  let start ← layout.offset entry.start
  let stop ← layout.offset entry.stop
  if stop < start then throw (.variableRange entry.name)
  let name ← Pool.Intern.utf8 entry.name
  let descriptor ← Pool.Intern.utf8 entry.descriptor
  return u2 start ++ u2 (stop - start) ++ u2 name ++ u2 descriptor ++ u2 entry.index

/-- Write a counted list of local variables. -/
def writeVariables (entries : List LocalVariable) : Linking Bytes := do
  let count ← count entries.length "local variables"
  return u2 count ++ (← each (writeVariable layout) entries).flatten

/-- The frames of a method as differences. -/
def deltaFrames (owner : String) (method : MethodRecord) :
    Option Frames → Except Invalid (Option (List DeltaFrame))
  | none => return none
  | some (.compressed deltas) => return some deltas
  | some (.expanded frames) => do
    let initial ← (initialLocals owner method.access method.name method.descriptor).mapError
      .badDescriptor
    return some (compress initial frames)

/-- Say of a failure in which method it was. -/
def inMethod {α : Type} (method : MethodRecord) (step : Linking α) : Linking α := fun linker =>
  match step linker with
  | .ok a linker => .ok a linker
  | .error cause linker => .error (.inMethod method.name method.descriptor cause) linker

/-- Write the content of the `Code` attribute for a body whose labels were
    checked. -/
def writePrepared (owner : String) (method : MethodRecord) (code : Code) : Linking Bytes := do
  let frames ← deltaFrames owner method code.frames
  let (bytecode, layout) ← inMethod method (Bytecode.encode code.instructions)
  let handlerCount ← count code.exceptionTable.length "exception handlers"
  let handlers ← each (writeHandler layout) code.exceptionTable
  let lineNumbers ← AttributeTable.optional AttributeName.lineNumberTable
    (writeLineNumbers layout) code.lineNumbers
  let localVariables ← AttributeTable.optional AttributeName.localVariableTable
    (writeVariables layout) code.localVariables
  let variableTypes ← AttributeTable.optional AttributeName.localVariableTypeTable
    (writeVariables layout) code.localVariableTypes
  let stackMap ← AttributeTable.optional AttributeName.stackMapTable
    (fun frames => inMethod method (StackMap.write layout frames)) frames
  let visible ← AttributeTable.optional AttributeName.visibleTypeAnnotations
    (Annotations.writeTypeList (some layout)) code.visibleTypeAnnotations
  let invisible ← AttributeTable.optional AttributeName.invisibleTypeAnnotations
    (Annotations.writeTypeList (some layout)) code.invisibleTypeAnnotations
  let others ← each (fun attr => AttributeTable.attr attr.name attr.info) code.attributes
  let table ← AttributeTable.write
    (lineNumbers ++ localVariables ++ variableTypes ++ stackMap ++ visible ++ invisible ++ others)
  return u2 code.maxStack ++ u2 code.maxLocals ++ u4 (UInt32.ofNat bytecode.length) ++
    bytecode ++ u2 handlerCount ++ handlers.flatten ++ table

/-- Write the content of the `Code` attribute of `method`, with what the
    options ask for. -/
def write (options : EncodeOptions) (hierarchy : Hierarchy) (owner : String)
    (majorVersion : UInt16) (method : MethodRecord) (code : Code) : Linking Bytes := do
  inMethod method (checkLabels code)
  writePrepared owner method (prepare options hierarchy owner majorVersion method code)

end JvmClass.Body
