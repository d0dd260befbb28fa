/-
  Writing bytecode and stack map tables with labels of the layout alone.

  * `Checked.emitFrom` looks out for the label of every instruction and of every
    branch target, and hides all other places of the layout from an instruction,
    which does not depend on them (`Bytecode.emit_congr`);
  * `Checked.encodeBytecode_eq`: branch targets inside the code are labels of its
    layout;
  * `Checked.writeStackMap_eq`, `Checked.compress_eq`: frames are written for
    labels of the layout, and as differences without going past their locals.
-/
import JvmClass.Body.Writing
import JvmClass.Proofs.Bytecode.Listing
import JvmClass.Proofs.Checked.Basic

namespace JvmClass

/-! ## Instructions -/

namespace Bytecode

/-- The bytes of an instruction depend on the offsets of its branch targets, and
    on no other places of the layout. -/
theorem emit_congr {layout other : Layout} {i : Instruction}
    (h : ∀ target ∈ i.targets, layout.offsets[target]? = other.offsets[target]?)
    (operand : UInt16) (offset : Nat) : emit layout operand offset i = emit other operand offset i := by
  have hdistance {label : Label} (hlabel : layout.offsets[label]? = other.offsets[label]?) :
      distance layout offset label = distance other offset label := by
    rw [distance, distance, hlabel]
  have hdistance4 {label : Label} (hlabel : layout.offsets[label]? = other.offsets[label]?) :
      distance4 layout offset label = distance4 other offset label := by
    rw [distance4, distance4, hdistance hlabel]
  cases i with
  | jump opcode target =>
    have htarget := h target (.head _)
    simp only [emit, emitJump, hdistance htarget, hdistance4 htarget]
  | tableSwitch default low high targets =>
    obtain ⟨hdefault, htargets⟩ := List.forall_mem_cons.mp h
    have hall : targets.flatMap (distance4 layout offset) = targets.flatMap (distance4 other offset) :=
      List.flatMap_congr fun target hmem => hdistance4 (htargets target hmem)
    simp only [emit, emitTableSwitch, hdistance4 hdefault, hall]
  | lookupSwitch default pairs =>
    obtain ⟨hdefault, htargets⟩ := List.forall_mem_cons.mp h
    have hpairs : ∀ pair ∈ sortPairs pairs,
        distance4 layout offset pair.2 = distance4 other offset pair.2 := fun pair hmem => by
      have hpair : pair ∈ pairs := (List.mergeSort_perm ..).mem_iff.mp hmem
      exact hdistance4 (htargets pair.2 (List.mem_map_of_mem hpair))
    have hall : ((sortPairs pairs).flatMap fun x =>
          Bytes.u4 x.1.toUInt32 ++ distance4 layout offset x.2) =
        (sortPairs pairs).flatMap fun x => Bytes.u4 x.1.toUInt32 ++ distance4 other offset x.2 :=
      List.flatMap_congr fun pair hmem => by rw [hpairs pair hmem]
    simp only [emit, emitLookupSwitch, hdistance4 hdefault, hall]
  | _ => rfl

end Bytecode

namespace Checked

open Bytecode

/-- The layout with the places of some labels alone. -/
def onlyPlaces (layout : Layout) (labels : List Label) : Layout :=
  ⟨layout.offsets.mapIdx fun label offset => if label ∈ labels then offset else 0⟩

theorem getElem?_onlyPlaces {layout : Layout} {labels : List Label} {label : Label}
    (h : label ∈ labels) : (onlyPlaces layout labels).offsets[label]? = layout.offsets[label]? := by
  simp only [onlyPlaces, Array.getElem?_mapIdx, h, if_true, Option.map_id']

/-- The bytes of the instructions from the label `index` on, after the bytes
    `done` of the instructions before, last first. -/
def emitFrom (layout : Layout) (done : List Bytes) (index : Nat) :
    List (Instruction × UInt16) → Checked Invalid Bytes
  | [] => return done.reverse.flatten
  | (i, operand) :: rest => do
    let offset ← found layout.offsets[index]?
    require (∀ target ∈ i.targets, target < layout.offsets.size)
    match emit (onlyPlaces layout i.targets) operand offset i with
    | .error cause => throw (.atInstruction index cause)
    | .ok bytes => emitFrom layout (bytes :: done) (index + 1) rest

theorem emitFrom_eq {layout : Layout} {placed : Placed} {done : List Bytes} {index : Nat}
    (hsize : index + placed.length ≤ layout.offsets.size)
    (htargets : ∀ p ∈ placed, ∀ target ∈ p.1.targets, target < layout.offsets.size) :
    emitFrom layout done index placed = ofExcept (Bytecode.emitFrom layout done index placed) := by
  induction placed generalizing done index with
  | nil => rfl
  | cons p placed ih =>
    obtain ⟨i, operand⟩ := p
    obtain ⟨hfirst, hrest⟩ := List.forall_mem_cons.mp htargets
    rw [List.length_cons] at hsize
    have hindex : layout.offsets[index]? = some (layout.offsets[index]?.getD 0) := by
      rw [Array.getElem?_eq_getElem (by omega), Option.getD_some]
    have hemit : ∀ offset, emit (onlyPlaces layout i.targets) operand offset i =
        emit layout operand offset i :=
      emit_congr (fun _ => getElem?_onlyPlaces) operand
    rw [emitFrom, hindex, require_of hfirst]
    unfold Bytecode.emitFrom
    change (match emit (onlyPlaces layout i.targets) operand _ i with | .error _ => _ | .ok _ => _) = _
    rw [hemit]
    cases emit layout operand (layout.offsets[index]?.getD 0) i with
    | error cause => rfl
    | ok bytes => exact ih (by omega) hrest

-- A branch to a label that the layout does not have stops.
example : (emitFrom ⟨#[0, 3]⟩ [] 0 [(.jump Opcode.goto 7, 0)]).run = none := rfl

/-- A layout has a place for every instruction and for the end of the code. -/
theorem size_of_layout {placed : Placed} {layout : Layout} (h : Bytecode.layout placed = .ok layout) :
    layout.offsets.size = placed.length + 1 := by
  rw [← Array.length_toList, (ascends_layout h).toList, List.length_append, length_startsFrom]
  rfl

/-- Write a list of instructions, which have to end where their layout says; a
    step that stops is a failure for the cause `fault`. -/
def encodeBytecode (fault : Invalid) (instructions : List Instruction) :
    Linking (Bytes × Layout) := do
  let operands ← Linking.each operand instructions
  let placed := instructions.zip operands
  let layout ← Bytecode.layout placed
  let bytes ← orThrow fault (emitFrom layout [] 0 placed)
  orThrow fault (require (layout.offsets.back? = some bytes.length))
  return (bytes, layout)

/-- **Branch targets inside the code are labels of its layout**, and the code is
    as long as that says. -/
theorem encodeBytecode_eq (fault : Invalid) {instructions : List Instruction}
    (h : ∀ i ∈ instructions, ∀ target ∈ i.targets, target < instructions.length) :
    encodeBytecode fault instructions = Bytecode.encode instructions := by
  funext s
  refine Linking.bind_congr fun operands t hoperands => Linking.bind_congr fun layout u hlayout => ?_
  obtain ⟨hlayout, -⟩ := Linking.liftM_eq_ok.mp hlayout
  have hplaced : (instructions.zip operands).length = instructions.length := by
    rw [List.length_zip, Linking.length_of_each hoperands, Nat.min_self]
  have hsize := size_of_layout hlayout
  have htargets : ∀ p ∈ instructions.zip operands, ∀ target ∈ p.1.targets,
      target < layout.offsets.size := by
    intro p hp target htarget
    rw [hsize, hplaced]
    exact Nat.lt_succ_of_lt (h p.1 (List.of_mem_zip hp).1 target htarget)
  rw [emitFrom_eq (by omega) htargets, orThrow_ofExcept]
  refine Linking.bind_congr fun bytes v hbytes => ?_
  obtain ⟨-, -, -, hascends⟩ := emitted_of_layout hlayout (Linking.liftM_eq_ok.mp hbytes).1
  have hend : layout.offsets.back? = some bytes.length := by
    rw [← Array.getLast?_toList, hascends.toList, List.getLast?_concat]
  rw [require_of hend]
  rfl

theorem size_pos_of_encode {instructions : List Instruction} {s t : Linker} {bytes : Bytes}
    {layout : Layout} (h : Bytecode.encode instructions s = .ok (bytes, layout) t) :
    0 < layout.offsets.size := by
  obtain ⟨operands, -, hlayout, -⟩ := encode_eq_ok.mp h
  rw [size_of_layout hlayout]
  exact Nat.succ_pos _

/-! ## Stack map tables -/

/-- Write frames after one at the offset `previous` and after the bytes `done`
    of the frames before, last first. -/
def writeFrames (fault : Invalid) (layout : Layout) (done : List Bytes) (previous : Option Nat) :
    List DeltaFrame → Linking Bytes
  | [] => return done.reverse.flatten
  | frame :: rest => do
    if frame.target ≥ layout.count then throw (.frameTarget frame.target)
    let offset ← orThrow fault (found layout.offsets[frame.target]?)
    let delta ← StackMap.delta previous offset
    let bytes ← StackMap.writeDelta layout delta frame
    writeFrames fault layout (bytes :: done) (some offset) rest

/-- Write a counted list of frames. -/
def writeStackMap (fault : Invalid) (layout : Layout) (frames : List DeltaFrame) :
    Linking Bytes := do
  let count ← Linking.count frames.length "stack map frames"
  -- The last place of the layout is that of the end of the code.
  orThrow fault (require (0 < layout.offsets.size))
  return Bytes.u2 count ++ (← writeFrames fault layout [] none frames)

theorem writeFrames_eq (fault : Invalid) (layout : Layout) (done : List Bytes)
    (previous : Option Nat) (frames : List DeltaFrame) :
    writeFrames fault layout done previous frames =
      StackMap.writeFrames layout done previous frames := by
  induction frames generalizing done previous with
  | nil => rfl
  | cons frame rest ih =>
    unfold writeFrames StackMap.writeFrames
    split
    next => rfl
    next hlt =>
      have hoffset : layout.offsets[frame.target]? =
          some (layout.offsets[frame.target]?.getD 0) := by
        have hinside : frame.target < layout.offsets.size :=
          Nat.lt_of_lt_of_le (Nat.not_le.mp hlt) (Nat.sub_le ..)
        rw [Array.getElem?_eq_getElem hinside, Option.getD_some]
      rw [hoffset]
      simp only [ih]
      rfl

/-- **Frames are written for labels of the layout.** -/
theorem writeStackMap_eq (fault : Invalid) {layout : Layout} (h : 0 < layout.offsets.size) :
    writeStackMap fault layout = StackMap.write layout := by
  funext frames
  simp only [writeStackMap, require_of h, writeFrames_eq]
  rfl

/-! ## Frames as differences -/

/-- The smallest difference that makes `frame` of the locals `previous`. -/
def delta (previous : List VerificationType) (frame : Frame) : Checked Invalid DeltaFrame := do
  let fewer := previous.length - frame.locals.length
  let more := frame.locals.length - previous.length
  if frame.locals = previous ∧ frame.stack = [] then return .same frame.target
  else if frame.locals = previous ∧ frame.stack.length = 1 then
    return .sameOne frame.target (← found frame.stack[0]?)
  else if frame.stack = [] ∧ 1 ≤ fewer ∧ fewer ≤ 3 ∧ frame.locals <+: previous then
    return .chop frame.target (UInt8.ofNat fewer)
  else if frame.stack = [] ∧ 1 ≤ more ∧ more ≤ 3 ∧ previous <+: frame.locals then
    require (previous.length ≤ frame.locals.length)
    return .append frame.target (frame.locals.drop previous.length)
  else return .full frame.target frame.locals frame.stack

/-- The smallest differences that make `frames`, starting from the locals
    `initial`. -/
def compress (initial : List VerificationType) (frames : List Frame) :
    Checked Invalid (List DeltaFrame) :=
  ((initial :: frames.map (·.locals)).zip frames).mapM fun (previous, frame) => delta previous frame

/-- The frames of a method as differences. -/
def deltaFrames (owner : String) (method : MethodRecord) :
    Option Frames → Checked Invalid (Option (List DeltaFrame))
  | none => return none
  | some (.compressed deltas) => return some deltas
  | some (.expanded frames) => do
    let initial ← ofExcept ((initialLocals owner method.access method.name
      method.descriptor).mapError .badDescriptor)
    return some (← compress initial frames)

theorem delta_eq (previous : List VerificationType) (frame : Frame) :
    delta previous frame = pure (frame.delta previous) := by
  obtain ⟨target, locals, stack⟩ := frame
  unfold delta Frame.delta
  match stack with
  | [] =>
    simp only [and_true, true_and, List.length_nil, Nat.zero_ne_one, and_false, if_false]
    split
    next => rfl
    next =>
      split
      next => rfl
      next =>
        split
        next h =>
          have hle : previous.length ≤ locals.length := Nat.le_of_lt (Nat.lt_of_sub_pos h.1)
          rw [require_of hle]
          rfl
        next => rfl
  | [operand] =>
    simp only [reduceCtorEq, and_false, false_and, if_false, List.length_singleton, and_true]
    split
    next => rfl
    next => rfl
  | operand :: other :: rest =>
    simp only [reduceCtorEq, and_false, false_and, if_false, List.length_cons,
      Nat.add_eq_right, Nat.add_one_ne_zero]

theorem compress_eq (initial : List VerificationType) (frames : List Frame) :
    compress initial frames = pure (JvmClass.compress initial frames) := by
  simp only [compress, delta_eq, List.mapM_pure, List.map_zip_eq_zipWith, JvmClass.compress]
  rfl

/-- **Differences are made without going past the locals.** -/
theorem deltaFrames_eq (owner : String) (method : MethodRecord) (frames : Option Frames) :
    deltaFrames owner method frames = ofExcept (Body.deltaFrames owner method frames) := by
  match frames with
  | none => rfl
  | some (.compressed deltas) => rfl
  | some (.expanded frames) =>
    simp only [deltaFrames, compress_eq]
    exact bind_ofExcept fun _ _ => rfl

end Checked

end JvmClass
