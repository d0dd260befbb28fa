/-
  Frames as differences from the frame before.

  * `initialLocals` are the locals on entry of a method;
  * `DeltaFrame.apply` is the frame that a difference makes of the locals
    before it, `Frame.delta` the smallest difference that makes a frame;
  * `expand` spells out a list of differences, `compress` is the list of the
    smallest ones.
-/
import JvmClass.Access
import JvmClass.Frame.Basic

namespace JvmClass

/-- The locals on entry of a method: `this` unless it is static, then the
    parameters.  In a constructor `this` is not initialized yet. -/
def initialLocals (owner : String) (access : Access) (name descriptor : String) :
    Except Malformed (List VerificationType) := do
  let type ← MethodType.ofDescriptor descriptor
  let parameters := type.parameters.map FieldType.verificationType
  if access.isStatic then return parameters
  else if name = "<init>" ∧ owner ≠ "java/lang/Object" then
    return .uninitializedThis :: parameters
  else return .object owner :: parameters

/-- The frame that a difference makes of the locals before it. -/
def DeltaFrame.apply (locals : List VerificationType) : DeltaFrame → Except Malformed Frame
  | same target => .ok ⟨target, locals, []⟩
  | sameOne target operand => .ok ⟨target, locals, [operand]⟩
  | chop target count =>
    if count.toNat > locals.length then .error (.chopped count locals.length)
    else .ok ⟨target, locals.take (locals.length - count.toNat), []⟩
  | append target added => .ok ⟨target, locals ++ added, []⟩
  | full target locals stack => .ok ⟨target, locals, stack⟩

/-- The smallest difference that makes `frame` of the locals `previous`. -/
def Frame.delta (previous : List VerificationType) (frame : Frame) : DeltaFrame :=
  match frame with
  | ⟨target, locals, stack⟩ =>
    if locals = previous ∧ stack = [] then .same target
    else
      match stack with
      | [operand] =>
        if locals = previous then .sameOne target operand else .full target locals [operand]
      | [] =>
        let fewer := previous.length - locals.length
        let more := locals.length - previous.length
        if 1 ≤ fewer ∧ fewer ≤ 3 ∧ locals <+: previous then .chop target (UInt8.ofNat fewer)
        else if 1 ≤ more ∧ more ≤ 3 ∧ previous <+: locals then
          .append target (locals.drop previous.length)
        else .full target locals []
      | stack => .full target locals stack

/-- Spell out differences, after the frames `done` in reverse. -/
def expandRev (done : List Frame) (locals : List VerificationType) :
    List DeltaFrame → Except Malformed (List Frame)
  | [] => .ok done.reverse
  | delta :: deltas => do
    let frame ← delta.apply locals
    expandRev (frame :: done) frame.locals deltas

/-- Spell out differences, starting from the locals `initial`. -/
def expand (initial : List VerificationType) (deltas : List DeltaFrame) :
    Except Malformed (List Frame) :=
  expandRev [] initial deltas

/-- The smallest differences that make `frames`, starting from the locals
    `initial`. -/
def compress (initial : List VerificationType) (frames : List Frame) : List DeltaFrame :=
  List.zipWith Frame.delta (initial :: frames.map (·.locals)) frames

end JvmClass
