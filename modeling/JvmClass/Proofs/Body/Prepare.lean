/-
  Bodies that are written in place of others.

  * a body in place of one whose labels lie inside it has its labels inside it
    (`labelsInside_prepare`) and can be read again (`readable_prepare`);
  * `write_eq_ok`: what is written is what was prepared, if the labels of the
    body lie inside it;
  * `writePrepared_normalize`: a body and its normal form are written alike.
-/
import JvmClass.Proofs.Body.RoundTrip
import JvmClass.Proofs.Flow.Analysis
import JvmClass.Proofs.Flow.DeadCode
import JvmClass.Proofs.Flow.Edges

namespace JvmClass

theorem Flow.labelsInRange_of_labelsInside {code : Code} (h : Body.LabelsInside code) :
    Flow.LabelsInRange code :=
  ⟨h.targets, fun handler hmem => (h.handlers handler hmem).2⟩

/-- A body with the instructions and the exception table that an analysis
    leaves of another. -/
structure Flow.Leaves (code : Code) (a : Analysis) : Prop where
  length : a.instructions.length = code.instructions.length
  instructions : ∀ i ∈ a.instructions, i ∈ code.instructions ∨ ∃ opcode, i = .simple opcode
  handlers : ∀ piece ∈ a.exceptionTable, piece ∈ code.exceptionTable ∨
    ∃ handler ∈ code.exceptionTable, piece.start < piece.stop ∧ piece.stop ≤ handler.stop ∧
      piece.handler = handler.handler ∧ piece.catchType = handler.catchType

section
variable {hierarchy : Hierarchy} {owner : String} {method : MethodRecord} {code : Code}
  {computeFrames : Bool}

/-- An analysis keeps instructions, or replaces them by some without operands,
    and exception handlers, or parts of what they cover. -/
theorem Flow.leaves_of_analyze {a : Analysis}
    (h : analyze hierarchy owner method code computeFrames = .ok a) : Flow.Leaves code a := by
  obtain ⟨initial, measured, -, hmeasured, -, -, rfl⟩ := analyze_eq_ok h
  cases hmeasured with
  | empty hempty => exact ⟨by rw [hempty], nofun, fun _ h => .inl h⟩
  | framed _ _ hrun =>
    exact ⟨Flow.length_bury _ _, fun _ h => Flow.mem_bury h, fun _ h => Flow.mem_removeRanges h⟩
  | sized _ _ hrun => exact ⟨rfl, fun _ h => .inl h, fun _ h => .inl h⟩

namespace Body

variable {options : EncodeOptions} {majorVersion : UInt16}

/-- Without options, a hierarchy has no part in writing. -/
theorem write_plain (hierarchy other : Hierarchy) (owner : String) (majorVersion : UInt16) :
    write {} hierarchy owner majorVersion = write {} other owner majorVersion := by
  have hplain : ∀ (h : Hierarchy) (method : MethodRecord) (code : Code),
      prepare {} h owner majorVersion method code = code := fun _ _ _ => if_neg (by decide)
  funext method code
  rw [write, hplain, write, hplain]

/-- A body is written as it is, or with what an analysis leaves of it. -/
theorem prepare_cases (options : EncodeOptions) (hierarchy : Hierarchy) (owner : String)
    (majorVersion : UInt16) (method : MethodRecord) (code : Code) :
    prepare options hierarchy owner majorVersion method code = code ∨
      ∃ a frames, Flow.Leaves code a ∧
        prepare options hierarchy owner majorVersion method code =
          { code with
            maxStack := a.maxStack
            maxLocals := a.maxLocals
            instructions := a.instructions
            exceptionTable := a.exceptionTable
            frames := frames } := by
  unfold prepare
  split
  · split
    next => exact .inl rfl
    next a ha => exact .inr ⟨a, _, Flow.leaves_of_analyze ha, rfl⟩
  · exact .inl rfl

/-- With frames, a body is written with what an analysis leaves of it. -/
theorem prepare_of_analyze {a : Analysis} (hframes : options.computeFrames = true)
    (hversion : framesVersion ≤ majorVersion)
    (h : analyze hierarchy owner method code true = .ok a) :
    ∃ frames, prepare options hierarchy owner majorVersion method code =
      { code with
        maxStack := a.maxStack
        maxLocals := a.maxLocals
        instructions := a.instructions
        exceptionTable := a.exceptionTable
        frames := frames } := by
  simp only [prepare, hframes, hversion, Bool.or_true, Bool.true_and, decide_true, if_true, h]
  exact ⟨_, rfl⟩

theorem labelsInside_prepare (h : LabelsInside code) :
    LabelsInside (prepare options hierarchy owner majorVersion method code) := by
  obtain heq | ⟨a, frames, hleaves, heq⟩ :=
    prepare_cases options hierarchy owner majorVersion method code
  · rw [heq]; exact h
  rw [heq]
  constructor
  · intro i hi target htarget
    rcases hleaves.instructions i hi with hkept | ⟨opcode, rfl⟩
    · exact Nat.lt_of_lt_of_eq (h.targets i hkept target htarget) hleaves.length.symm
    · exact nomatch htarget
  · intro piece hpiece
    change piece.start < piece.stop ∧ piece.stop ≤ a.instructions.length ∧
      piece.handler < a.instructions.length
    rw [hleaves.length]
    rcases hleaves.handlers piece hpiece with hkept | ⟨handler, hmem, hlt, hle, htarget, -⟩
    · exact h.handlers piece hkept
    · obtain ⟨-, hstop, hinside⟩ := h.handlers handler hmem
      exact ⟨hlt, Nat.le_trans hle hstop, htarget ▸ hinside⟩

theorem readable_prepare (h : code.Readable) :
    (prepare options hierarchy owner majorVersion method code).Readable := by
  obtain heq | ⟨a, frames, hleaves, heq⟩ :=
    prepare_cases options hierarchy owner majorVersion method code
  · rw [heq]; exact h
  rw [heq]
  refine ⟨fun i hi => ?_, h.visible, h.invisible, h.raw⟩
  rcases hleaves.instructions i hi with hkept | ⟨opcode, rfl⟩
  · exact h.nests i hkept
  · exact trivial

/-! ## Written alike -/

theorem deltaFrames_normalize (owner : String) (method : MethodRecord) (frames : Option Frames) :
    deltaFrames owner method (Frames.normalize owner method frames) =
      deltaFrames owner method frames := by
  unfold Frames.normalize
  split
  next deltas hdeltas =>
    rw [hdeltas]
    cases deltas <;> rfl
  next => rfl

theorem writePrepared_tidy (owner : String) (method : MethodRecord) (code : Code) :
    writePrepared owner method code.tidy = writePrepared owner method code := by
  simp only [writePrepared, Code.tidy, Bytecode.encode_normalize]

theorem writePrepared_normalize (owner : String) (method : MethodRecord) (code : Code) :
    writePrepared owner method (code.normalize owner method) = writePrepared owner method code := by
  simp only [writePrepared, Code.normalize, deltaFrames_normalize, Bytecode.encode_normalize]

theorem labelsInside_tidy (h : LabelsInside code) : LabelsInside code.tidy := by
  have hstop : code.tidy.stop = code.stop := List.length_map _
  constructor
  · intro i hi target htarget
    obtain ⟨j, hj, rfl⟩ := List.mem_map.mp hi
    rw [hstop]
    exact h.targets j hj target (Instruction.mem_targets_normalize.mp htarget)
  · intro handler hmem
    rw [hstop]
    exact h.handlers handler hmem

theorem labelsInside_normalize (h : LabelsInside code) :
    LabelsInside (code.normalize owner method) :=
  ⟨(labelsInside_tidy h).targets, (labelsInside_tidy h).handlers⟩

theorem write_eq_ok {s t : Linker} {w : Bytes} :
    write options hierarchy owner majorVersion method code s = .ok w t ↔
      LabelsInside code ∧
        writePrepared owner method (prepare options hierarchy owner majorVersion method code) s =
          .ok w t := by
  rw [write, Linking.bind_eq_ok, ← checkLabels_eq_ok]
  simp only [inMethod_eq_ok, Linking.liftM_eq_ok]
  constructor
  · rintro ⟨⟨⟩, u, ⟨hlabels, rfl⟩, hwrite⟩
    exact ⟨hlabels, hwrite⟩
  · rintro ⟨hchecked, hwrite⟩
    exact ⟨(), s, ⟨hchecked, rfl⟩, hwrite⟩

end Body

end

end JvmClass
