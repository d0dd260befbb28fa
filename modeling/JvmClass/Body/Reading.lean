/-
  Reading method bodies.

  * `Body.read` reads the content of a `Code` attribute; what it says about
    offsets is said about labels in the record;
  * line numbers and local variables that do not line up with instructions are
    left out.
-/
import JvmClass.Attribute.Binary
import JvmClass.Bytecode.Reading
import JvmClass.Frame.Binary
import JvmClass.Frame.Delta
import JvmClass.Options
import JvmClass.Record

namespace JvmClass.Body

open Reader

/-- The longest code that may be read. -/
def maxLength : Nat := 0xFFFF

variable (linkage : Linkage) (options : DecodeOptions) (owner : String) (method : MethodRecord)
  (labels : LabelMap)

/-- Read an entry of an exception table. -/
def readHandler : Reader ExceptionHandler := do
  let start ← labels.instruction (← u2).toNat
  let stop ← labels.label (← u2).toNat
  let handler ← labels.instruction (← u2).toNat
  let catchType ← linkage.pool.className? (← u2)
  if start ≥ stop then throw (.emptyHandlerRange method.name method.descriptor)
  return ⟨start, stop, handler, catchType⟩

/-- Read a line number; none if no instruction starts there. -/
def readLineNumber : Reader (Option LineNumber) := do
  let start := (← u2).toNat
  let line ← u2
  return (labels.label? start).map fun start => ⟨start, line⟩

/-- Read a local variable; none if its range does not line up with
    instructions. -/
def readVariable : Reader (Option LocalVariable) := do
  let start := (← u2).toNat
  let length := (← u2).toNat
  let name ← linkage.pool.utf8 (← u2)
  let descriptor ← linkage.pool.utf8 (← u2)
  let index ← u2
  match labels.label? start, labels.label? (start + length) with
  | some start, some stop => return some ⟨start, stop, name, descriptor, index⟩
  | _, _ => return none

/-- Read a counted list of entries, some of which are left out. -/
def readEntries {α : Type} (entry : Reader (Option α)) : Reader (List α) := do
  return (← times (← u2).toNat entry).reduceOption

/-- Read a stack map table in the form that the options ask for. -/
def readFrames : Reader Frames := do
  let deltas ← StackMap.read linkage.pool labels
  if options.expandFrames then
    let initial ← initialLocals owner method.access method.name method.descriptor
    return .expanded (← expand initial deltas)
  else return .compressed deltas

/-- Read an attribute of a method body; other attributes are kept last
    first. -/
def readAttribute (name : String) (code : Code) : Reader Code := do
  if options.skipDebug ∧ (name = AttributeName.lineNumberTable ∨
      name = AttributeName.localVariableTable ∨
      name = AttributeName.localVariableTypeTable) then
    skipRest
    return code
  else if options.skipFrames ∧ name = AttributeName.stackMapTable then
    skipRest
    return code
  else if name = AttributeName.lineNumberTable then
    let more ← readEntries (readLineNumber labels)
    return { code with lineNumbers := some (code.lineNumbers.getD [] ++ more) }
  else if name = AttributeName.localVariableTable then
    let more ← readEntries (readVariable linkage labels)
    return { code with localVariables := some (code.localVariables.getD [] ++ more) }
  else if name = AttributeName.localVariableTypeTable then
    let more ← readEntries (readVariable linkage labels)
    return { code with localVariableTypes := some (code.localVariableTypes.getD [] ++ more) }
  else if name = AttributeName.stackMapTable then
    return { code with frames := some (← readFrames linkage options owner method labels) }
  else if name = AttributeName.visibleTypeAnnotations then
    let annotations ← Annotations.readTypeList linkage.pool (some labels)
    return { code with visibleTypeAnnotations := some annotations }
  else if name = AttributeName.invisibleTypeAnnotations then
    let annotations ← Annotations.readTypeList linkage.pool (some labels)
    return { code with invisibleTypeAnnotations := some annotations }
  else return { code with attributes := (← Attribute.readRaw name) :: code.attributes }

/-- Read the content of the `Code` attribute of `method`. -/
def read : Reader Code := do
  let maxStack ← u2
  let maxLocals ← u2
  let length := (← u4).toNat
  if length > maxLength then throw (.codeLength method.name method.descriptor length)
  let (instructions, labels) ← Bytecode.decode linkage (← take length)
  let exceptionTable ← times (← u2).toNat (readHandler linkage method labels)
  let code ← AttributeTable.read linkage.pool (readAttribute linkage options owner method labels)
    { maxStack, maxLocals, instructions, exceptionTable, lineNumbers := none,
      localVariables := none, localVariableTypes := none, frames := none,
      visibleTypeAnnotations := none, invisibleTypeAnnotations := none, attributes := [] }
  return { code with attributes := code.attributes.reverse }

end JvmClass.Body
