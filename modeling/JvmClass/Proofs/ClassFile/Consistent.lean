/-
  What every body of a decoded class satisfies.

  * `Instruction.Sound.legal`: instructions that were read are legal;
  * `Code.Consistent`: whatever a body refers to is there;
  * `consistent_of_decode`: every body of a class that was read is consistent.
-/
import JvmClass.Proofs.Bytecode.Legal
import JvmClass.Proofs.ClassFile.Walk

namespace JvmClass

theorem Instruction.Sound.legal {linked : Prop} {i : Instruction} (h : i.Sound linked) :
    i.Legal := by
  cases i with
  | simple opcode => exact (Opcode.isPlain_iff opcode).mp h
  | push opcode _ => exact h.imp And.left id
  | var opcode _ => exact (Opcode.isVariable_iff opcode).mp h
  | jump opcode _ => exact (Opcode.isBranch_iff opcode).mp h
  | tableSwitch _ low high targets =>
    have hle := Int32.le_iff_toInt_le.mp (Int32.not_lt.mp h.2)
    have hlength := h.1
    exact ⟨hlength.symm, by omega⟩
  | field opcode _ => exact (Opcode.isAccess_iff opcode).mp h
  | method opcode _ _ => exact (Opcode.isCall_iff opcode).mp h
  | type opcode _ => exact (Opcode.mem_ofType_iff opcode).mp h
  | _ => trivial

/-! ## Bodies -/

/-- Whatever a body refers to is there.  `Code.stop` is the number of its
    instructions and the label of its end. -/
structure Code.Consistent (code : Code) : Prop where
  /-- The check of the writer passes. -/
  checked : Body.checkLabels code = .ok ()
  /-- Branch targets and handlers lie in the body. -/
  inside : Body.LabelsInside code
  instructions : ∀ i ∈ code.instructions, i.Legal
  lines : ∀ list ∈ code.lineNumbers, ∀ line ∈ list, line.start ≤ code.stop
  locals : ∀ list ∈ code.localVariables, ∀ entry ∈ list,
    entry.start ≤ entry.stop ∧ entry.stop ≤ code.stop
  localTypes : ∀ list ∈ code.localVariableTypes, ∀ entry ∈ list,
    entry.start ≤ entry.stop ∧ entry.stop ≤ code.stop
  /-- The frames ascend, in either form, and refer to instructions. -/
  frames : ∀ frames ∈ code.frames, frames.Within code.stop
  visible : ∀ list ∈ code.visibleTypeAnnotations, ∀ a ∈ list, a.target.Within (some code.stop)
  invisible : ∀ list ∈ code.invisibleTypeAnnotations, ∀ a ∈ list,
    a.target.Within (some code.stop)

theorem Code.Sound.consistent {linked : Prop} {code : Code} (h : code.Sound linked) :
    code.Consistent where
  checked := Body.checkLabels_eq_ok.mpr h.inside
  inside := h.inside
  instructions i hi := (h.instructions i hi).1.legal
  lines := h.parts.lines
  locals := h.parts.locals
  localTypes := h.parts.localTypes
  frames := h.parts.frames
  visible list hlist a ha := ((h.parts.visible list hlist).2 a ha).2.target
  invisible list hlist a ha := ((h.parts.invisible list hlist).2 a ha).2.target

namespace ClassFile

/-- **Decoding establishes the invariants of bodies**, whatever is left out or
    spelled out. -/
theorem consistent_of_decode {bytes : Bytes} {options : DecodeOptions} {record : ClassRecord}
    (h : decode bytes options = .ok record) :
    ∀ method ∈ record.methods, ∀ code ∈ method.code, code.Consistent := by
  obtain ⟨linked, hsound, -⟩ := sound_of_decode h
  exact fun method hmethod code hcode => ((hsound.methods method hmethod).code code hcode).consistent

/-- The bytes of a class file with one method, whose body has a table switch,
    line numbers and frames. -/
def framedClass : Bytes :=
  [0xCA, 0xFE, 0xBA, 0xBE, 0, 0, 0, 52,
    0, 11, 1, 0, 1, 0x41, 7, 0, 1, 1, 0, 16, 0x6A, 0x61, 0x76, 0x61, 0x2F, 0x6C, 0x61, 0x6E, 0x67,
    0x2F, 0x4F, 0x62, 0x6A, 0x65, 0x63, 0x74, 7, 0, 3, 1, 0, 1, 0x6D, 1, 0, 3, 0x28, 0x29, 0x56,
    1, 0, 4, 0x43, 0x6F, 0x64, 0x65, 1, 0, 13, 0x53, 0x74, 0x61, 0x63, 0x6B, 0x4D, 0x61, 0x70, 0x54,
    0x61, 0x62, 0x6C, 0x65, 1, 0, 15, 0x4C, 0x69, 0x6E, 0x65, 0x4E, 0x75, 0x6D, 0x62, 0x65, 0x72,
    0x54, 0x61, 0x62, 0x6C, 0x65, 1, 0, 10, 0x53, 0x6F, 0x75, 0x72, 0x63, 0x65, 0x46, 0x69, 0x6C,
    0x65,
    0, 0x21, 0, 2, 0, 4, 0, 0, 0, 0, 0, 1,
    0, 9, 0, 5, 0, 6, 0, 1, 0, 7, 0, 0, 0, 63, 0, 1, 0, 1, 0, 0, 0, 26,
    0x03, 0xAA, 0, 0, 0, 0, 0, 23, 0, 0, 0, 0, 0, 0, 0, 1, 0, 0, 0, 23, 0, 0, 0, 24, 0x00, 0xB1,
    0, 0, 0, 2, 0, 9, 0, 0, 0, 6, 0, 1, 0, 0, 0, 7, 0, 8, 0, 0, 0, 7, 0, 2, 252, 0, 24, 1, 0,
    0, 1, 0, 10, 0, 0, 0, 2, 0, 1]

/-- It is read with its frames spelled out. -/
theorem consistent_of_decode_framedClass :
    ∃ record, decode framedClass { expandFrames := true } = .ok record ∧
      (∃ method ∈ record.methods, ∃ code ∈ method.code, code.frames.isSome ∧
        code.lineNumbers.isSome) ∧
      ∀ method ∈ record.methods, ∀ code ∈ method.code, code.Consistent := by
  have hparts : (match decode framedClass { expandFrames := true } with
      | .ok record => record.methods.any fun method => method.code.any fun code =>
          code.frames.isSome && code.lineNumbers.isSome
      | .error _ => false) = true := by decide +kernel
  cases hdecode : decode framedClass { expandFrames := true } with
  | error cause => rw [hdecode] at hparts; exact nomatch hparts
  | ok record =>
    rw [hdecode] at hparts
    refine ⟨record, rfl, ?_, consistent_of_decode hdecode⟩
    simpa only [List.any_eq_true, Option.any_eq_true, Bool.and_eq_true, Option.mem_def] using hparts

end ClassFile

end JvmClass
