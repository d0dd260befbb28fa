/-
  Annotations in class files.

  * `Annotations.readList` and `writeList` treat a counted list of
    annotations, `readValue` and `writeValue` one element value,
    `readTypeList` and `writeTypeList` type annotations;
  * element values nest at most `maxNesting` deep when they are read;
  * the targets of type annotations refer to instructions only where there are
    labels, that is in a method body.
-/
import JvmClass.Annotation.Basic
import JvmClass.Bytecode.Labels
import JvmClass.Linkage.Builder

namespace JvmClass.Annotations

/-- How deep element values may nest. -/
def maxNesting : Nat := 64

/-! ## Reading -/

section
open Reader

variable (pool : Pool)

/-- The integer at `index`. -/
def integerAt (index : Pool.Index) : Except Malformed Int32 := do
  match ← pool.get index with
  | .integer value => return value
  | entry => throw (.entryKind .integer index entry.kind)

/-- The bits of the double at `index`. -/
def doubleAt (index : Pool.Index) : Except Malformed UInt64 := do
  match ← pool.get index with
  | .double bits => return bits
  | entry => throw (.elementKind .double entry.kind)

/-- The bits of the float at `index`. -/
def floatAt (index : Pool.Index) : Except Malformed UInt32 := do
  match ← pool.get index with
  | .float bits => return bits
  | entry => throw (.elementKind .float entry.kind)

/-- The long at `index`. -/
def longAt (index : Pool.Index) : Except Malformed Int64 := do
  match ← pool.get index with
  | .long value => return value
  | entry => throw (.elementKind .long entry.kind)

/-- Read an annotation, whose element values `value` reads. -/
def readWith (value : Reader ElementValue) : Reader Annotation := do
  let descriptor ← pool.utf8 (← u2)
  let count ← u2
  let values ← times count.toNat do
    let name ← pool.utf8 (← u2)
    return (name, ← value)
  return ⟨descriptor, values⟩

/-- Read an element value that nests less than `depth` deep: its tag, then its
    operands. -/
def readValueWithin : (depth : Nat) → Reader ElementValue
  | 0 => throw (.annotationDepth maxNesting)
  | depth + 1 => do
    let tag ← u1
    match Char.ofNat tag.toNat with
    | 'B' => return .byte (← integerAt pool (← u2)).toInt8
    | 'C' => return .char (← integerAt pool (← u2)).toUInt32.toUInt16
    | 'I' => return .int (← integerAt pool (← u2))
    | 'S' => return .short (← integerAt pool (← u2)).toInt16
    | 'Z' => return .boolean ((← integerAt pool (← u2)) != 0)
    | 'D' => return .double (← doubleAt pool (← u2))
    | 'F' => return .float (← floatAt pool (← u2))
    | 'J' => return .long (← longAt pool (← u2))
    | 's' => return .string (← pool.utf8 (← u2))
    | 'e' =>
      let descriptor ← pool.utf8 (← u2)
      return .enum descriptor (← pool.utf8 (← u2))
    | 'c' => return .classLiteral (← pool.utf8 (← u2))
    | '@' =>
      let annotation ← readWith pool (readValueWithin depth)
      return .nested annotation.descriptor annotation.values
    | '[' => return .array (← times (← u2).toNat (readValueWithin depth))
    | _ => throw (.elementTag tag)

/-- Read an element value. -/
def readValue : Reader ElementValue := readValueWithin pool (maxNesting + 1)

/-- Read an annotation. -/
def readOne : Reader Annotation := readWith pool (readValue pool)

/-- Read a counted list of annotations. -/
def readList : Reader (List Annotation) := do times (← u2).toNat (readOne pool)

/-- Read a range of instructions and a local variable. -/
def readRange (labels : LabelMap) : Reader VariableRange := do
  let start := (← u2).toNat
  let length := (← u2).toNat
  let startLabel ← labels.label start
  let stopLabel ← labels.label (start + length)
  return ⟨startLabel, stopLabel, ← u2⟩

/-- The labels, which the target `type` needs. -/
def needLabels (labels : Option LabelMap) (type : UInt8) : Except Malformed LabelMap :=
  match labels with
  | some labels => return labels
  | none => throw (.targetOutsideBody type)

/-- Read the target of a type annotation. -/
def readTarget (labels : Option LabelMap) : Reader TypeAnnotation.Target := do
  let type ← u1
  if type ≤ 0x01 then return .typeParameter type (← u1)
  else if type = 0x10 then return .supertype (← u2)
  else if type = 0x11 ∨ type = 0x12 then return .bound type (← u1) (← u1)
  else if 0x13 ≤ type ∧ type ≤ 0x15 then return .empty type
  else if type = 0x16 then return .formalParameter (← u1)
  else if type = 0x17 then return .throws (← u2)
  else if type = 0x40 ∨ type = 0x41 then
    let labels ← needLabels labels type
    return .localVariable type (← times (← u2).toNat (readRange labels))
  else if type = 0x42 then return .catch (← u2)
  else if 0x43 ≤ type ∧ type ≤ 0x46 then
    let labels ← needLabels labels type
    return .offset type (← labels.label (← u2).toNat)
  else if 0x47 ≤ type ∧ type ≤ 0x4B then
    let labels ← needLabels labels type
    let label ← labels.label (← u2).toNat
    return .typeArgument type label (← u1)
  else throw (.targetType type)

/-- Read a type annotation. -/
def readOneType (labels : Option LabelMap) : Reader TypeAnnotation := do
  let target ← readTarget labels
  let path ← times (← u1).toNat do return TypePathEntry.mk (← u1) (← u1)
  return ⟨target, path, ← readOne pool⟩

/-- Read a counted list of type annotations. -/
def readTypeList (labels : Option LabelMap) : Reader (List TypeAnnotation) := do
  times (← u2).toNat (readOneType pool labels)

end

/-! ## Writing -/

section
open Bytes Linking

/-- A tag and a pool index. -/
def tagged (tag : Char) (index : Pool.Index) : Bytes := UInt8.ofNat tag.toNat :: u2 index

mutual

/-- Write an element value. -/
def writeValue : ElementValue → Linking Bytes
  | .byte value => return tagged 'B' (← Pool.add (.integer value.toInt32))
  | .char unit => return tagged 'C' (← Pool.add (.integer unit.toUInt32.toInt32))
  | .double bits => return tagged 'D' (← Pool.add (.double bits))
  | .float bits => return tagged 'F' (← Pool.add (.float bits))
  | .int value => return tagged 'I' (← Pool.add (.integer value))
  | .long value => return tagged 'J' (← Pool.add (.long value))
  | .short value => return tagged 'S' (← Pool.add (.integer value.toInt32))
  | .boolean value => return tagged 'Z' (← Pool.add (.integer (if value then 1 else 0)))
  | .string value => return tagged 's' (← Pool.Intern.utf8 value)
  | .enum descriptor name => do
    let descriptor ← Pool.Intern.utf8 descriptor
    return tagged 'e' descriptor ++ u2 (← Pool.Intern.utf8 name)
  | .classLiteral descriptor => return tagged 'c' (← Pool.Intern.utf8 descriptor)
  | .nested descriptor values => do
    let descriptor ← Pool.Intern.utf8 descriptor
    let count ← count values.length "annotation values"
    return tagged '@' descriptor ++ u2 count ++ (← writePairs [] values)
  | .array values => do
    let count ← count values.length "array values"
    return tagged '[' count ++ (← writeValues [] values)

/-- Write element values after the bytes `done` of those before, last
    first. -/
def writeValues (done : List Bytes) : List ElementValue → Linking Bytes
  | [] => return done.reverse.flatten
  | value :: rest => do
    let bytes ← writeValue value
    writeValues (bytes :: done) rest

/-- Write named element values after the bytes `done` of those before, last
    first. -/
def writePairs (done : List Bytes) : List (String × ElementValue) → Linking Bytes
  | [] => return done.reverse.flatten
  | (name, value) :: rest => do
    let name ← Pool.Intern.utf8 name
    let bytes ← writeValue value
    writePairs ((u2 name ++ bytes) :: done) rest

end

/-- Write an annotation. -/
def writeOne (a : Annotation) : Linking Bytes := do
  let descriptor ← Pool.Intern.utf8 a.descriptor
  let count ← count a.values.length "annotation values"
  return u2 descriptor ++ u2 count ++ (← writePairs [] a.values)

/-- Write a counted list of annotations. -/
def writeList (annotations : List Annotation) : Linking Bytes := do
  let count ← count annotations.length "annotations"
  return u2 count ++ (← each writeOne annotations).flatten

/-- Write a range of instructions and a local variable. -/
def writeRange (layout : Layout) (range : VariableRange) : Except Invalid Bytes := do
  let start ← layout.offset range.start
  let stop ← layout.offset range.stop
  if stop < start then throw .annotationRange
  return u2 start ++ u2 (stop - start) ++ u2 range.index

/-- The layout, which a target needs that refers to instructions. -/
def needLayout : Option Layout → Except Invalid Layout
  | some layout => return layout
  | none => throw .targetOutsideBody

/-- Write the target of a type annotation. -/
def writeTarget (layout : Option Layout) : TypeAnnotation.Target → Except Invalid Bytes
  | .typeParameter type index => return [type, index]
  | .supertype index => return 0x10 :: u2 index
  | .bound type parameter bound => return [type, parameter, bound]
  | .empty type => return [type]
  | .formalParameter index => return [0x16, index]
  | .throws index => return 0x17 :: u2 index
  | .localVariable type ranges => do
    let layout ← needLayout layout
    let count ← count ranges.length "local variable ranges"
    return type :: u2 count ++ (← ranges.mapM (writeRange layout)).flatten
  | .catch index => return 0x42 :: u2 index
  | .offset type label => do
    let layout ← needLayout layout
    return type :: u2 (← layout.offset label)
  | .typeArgument type label index => do
    let layout ← needLayout layout
    return type :: u2 (← layout.offset label) ++ [index]

/-- Write a type annotation. -/
def writeOneType (layout : Option Layout) (a : TypeAnnotation) :
    Linking Bytes := do
  let target ← writeTarget layout a.target
  if a.path.length > 0xFF then throw (.pathLength a.path.length)
  let path := a.path.flatMap fun entry => [entry.kind, entry.argumentIndex]
  return target ++ UInt8.ofNat a.path.length :: path ++
    (← writeOne a.content)

/-- Write a counted list of type annotations. -/
def writeTypeList (layout : Option Layout) (annotations : List TypeAnnotation) :
    Linking Bytes := do
  let count ← count annotations.length "type annotations"
  return u2 count ++ (← each (writeOneType layout) annotations).flatten

end

end JvmClass.Annotations
