/-
  Stack map tables in class files.

  * `StackMap.read` reads a table, `StackMap.write` writes one; each frame
    tells its offset by the distance from the frame before;
  * `StackMap.readType` and `StackMap.writeType` treat one verification type.
-/
import JvmClass.Bytecode.Labels
import JvmClass.Linkage.Builder

namespace JvmClass.StackMap

/-! ## Reading -/

section
open Reader

variable (pool : Pool) (labels : LabelMap)

/-- Read a verification type: its tag, then its operand. -/
def readType : Reader VerificationType := do
  let tag ← u1
  match tag with
  | 0 => return .top
  | 1 => return .integer
  | 2 => return .float
  | 3 => return .double
  | 4 => return .long
  | 5 => return .null
  | 6 => return .uninitializedThis
  | 7 => return .object (← pool.className (← u2))
  | 8 => return .uninitialized (← labels.instruction (← u2).toNat)
  | _ => throw (.verificationTag tag)

/-- Read a counted list of verification types. -/
def readTypes : Reader (List VerificationType) := do
  times (← u2).toNat (readType pool labels)

/-- Read the distance of a frame with tag `tag` from the frame before. -/
def readDelta (tag : UInt8) : Reader Nat := do
  if tag < 128 then return tag.toNat % 64
  else if tag < 247 then throw (.frameType tag)
  else return (← u2).toNat

/-- Read the rest of a frame with tag `tag` for the instruction `target`. -/
def readRest (tag : UInt8) (target : Label) : Reader DeltaFrame := do
  if tag < 64 ∨ tag = 251 then return .same target
  else if tag < 128 ∨ tag = 247 then return .sameOne target (← readType pool labels)
  else if tag < 251 then return .chop target (251 - tag)
  else if tag < 255 then return .append target (← times (tag.toNat - 251) (readType pool labels))
  else
    let locals ← readTypes pool labels
    return .full target locals (← readTypes pool labels)

/-- Read a frame after one at the offset `previous`; its offset is returned
    with it. -/
def readFrame (previous : Option Nat) : Reader (Nat × DeltaFrame) := do
  let tag ← u1
  let delta ← readDelta tag
  let offset := match previous with
    | none => delta
    | some previous => previous + delta + 1
  let target ← labels.instruction offset
  return (offset, ← readRest pool labels tag target)

/-- Read a counted list of frames. -/
def read : Reader (List DeltaFrame) := do
  let count ← u2
  let (_, frames) ← fold (fun (previous, done) => do
    let (offset, frame) ← readFrame pool labels previous
    return (some offset, frame :: done)) count.toNat ((none : Option Nat), ([] : List DeltaFrame))
  return frames.reverse

end

/-! ## Writing -/

section
open Bytes Linking

variable (layout : Layout)

/-- Write a verification type. -/
def writeType : VerificationType → Linking Bytes
  | .top => return [0]
  | .integer => return [1]
  | .float => return [2]
  | .double => return [3]
  | .long => return [4]
  | .null => return [5]
  | .uninitializedThis => return [6]
  | .object name => return 7 :: u2 (← Pool.Intern.classRef name)
  | .uninitialized label => do
    if label ≥ layout.count then throw .newPastEnd
    return 8 :: u2 (← layout.offset label)

/-- Write verification types, without their number. -/
def writeTypes (types : List VerificationType) : Linking Bytes :=
  List.flatten <$> each (writeType layout) types

/-- Write a frame at the distance `delta` from the frame before. -/
def writeDelta (delta : UInt16) : DeltaFrame → Linking Bytes
  | .same _ => return if delta < 64 then [delta.toUInt8] else 251 :: u2 delta
  | .sameOne _ operand =>
    return (if delta < 64 then [64 + delta.toUInt8] else 247 :: u2 delta) ++
      (← writeType layout operand)
  | .chop _ count => do
    if count < 1 ∨ count > 3 then throw (.chopCount count)
    return (251 - count) :: u2 delta
  | .append _ locals => do
    if locals.length < 1 ∨ locals.length > 3 then throw (.appendCount locals.length)
    return (251 + UInt8.ofNat locals.length) :: u2 delta ++ (← writeTypes layout locals)
  | .full _ locals stack => do
    let localCount ← count locals.length "frame locals"
    let localBytes ← writeTypes layout locals
    let stackCount ← count stack.length "frame stack entries"
    let stackBytes ← writeTypes layout stack
    return 255 :: u2 delta ++ u2 localCount ++ localBytes ++ u2 stackCount ++ stackBytes

/-- The distance of the offset `offset` from that of the frame before. -/
def delta (previous : Option Nat) (offset : Nat) : Except Invalid UInt16 :=
  match previous with
  | none => return UInt16.ofNat offset
  | some previous =>
    if offset > previous then return UInt16.ofNat (offset - previous - 1) else throw .frameOrder

/-- Write frames after one at the offset `previous` and after the bytes `done`
    of the frames before, last first. -/
def writeFrames (done : List Bytes) (previous : Option Nat) : List DeltaFrame → Linking Bytes
  | [] => return done.reverse.flatten
  | frame :: rest => do
    if frame.target ≥ layout.count then throw (.frameTarget frame.target)
    let offset := layout.offsets[frame.target]?.getD 0
    let delta ← delta previous offset
    let bytes ← writeDelta layout delta frame
    writeFrames (bytes :: done) (some offset) rest

/-- Write a counted list of frames. -/
def write (frames : List DeltaFrame) : Linking Bytes := do
  let count ← count frames.length "stack map frames"
  return u2 count ++ (← writeFrames layout [] none frames)

end

end JvmClass.StackMap
