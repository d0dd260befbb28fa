/-
  Why instructions that were read may be refused by the writer.

  * `Instruction.Refused`: the reasons to refuse an instruction that goes with
    its operation code; `refused_of_emit` says that there are no others;
  * `Bytecode.Refused`: the reasons to refuse a list of instructions: a full pool,
    those of one of them, and that they do not fit when they are laid out with the
    indices of the new pool; `enters_encode` says that there are no others.
-/
import JvmClass.Proofs.Bytecode.Decoded
import JvmClass.Proofs.Linkage.Mentions

namespace JvmClass

/-- Why an instruction at `offset` cannot be written, even though its operation
    code goes with its operands. -/
inductive Instruction.Refused (layout : Layout) (offset : Nat) : Instruction → Invalid → Prop
  | distance {opcode : UInt8} {target : Label} (hform : Opcode.form? opcode = some .jump)
    (h : ¬ (-0x8000 ≤ Bytecode.distance layout offset target ∧
      Bytecode.distance layout offset target < 0x8000)) :
    Refused layout offset (.jump opcode target)
      (.branchDistance (Bytecode.distance layout offset target))
  | keys {default : Label} {pairs : List (Int32 × Label)} (h : ¬ (pairs.map (·.1)).Nodup) :
    Refused layout offset (.lookupSwitch default pairs) .duplicateKeys
  | descriptor {member : Member} {interface : Bool} {cause : Malformed}
    (h : MethodType.ofDescriptor member.descriptor = .error cause) :
    Refused layout offset (.method Opcode.invokeinterface member interface) (.badDescriptor cause)
  | slots {member : Member} {interface : Bool} {type : MethodType}
    (htype : MethodType.ofDescriptor member.descriptor = .ok type)
    (h : 0xFF < 1 + type.parameterSlots) :
    Refused layout offset (.method Opcode.invokeinterface member interface)
      (.argumentSlots type.parameterSlots)

/-- The constant, the member or the class that an instruction refers to. -/
def Instruction.mentions : Instruction → List Mention
  | ldc constant => [.constant constant]
  | field _ member => [.entry (.fieldRef member)]
  | method _ member interface => [.entry (.methodRef member interface)]
  | invokeDynamic name descriptor bootstrap => [.callSite name descriptor bootstrap]
  | type _ className | multiNewArray className _ => [.type className]
  | _ => []

/-- Why a list of instructions cannot be written, even though each of them goes
    with its operation code.  Once what they refer to was entered, they have the
    indices `operands`. -/
inductive Bytecode.Refused (instructions : List Instruction) : Invalid → Halt → Prop
  | full {linker : Linker} : Refused instructions .poolFull (.full linker)
  | length {operands : List UInt16} {s linker : Linker}
    (hoperands : Linking.each Bytecode.operand instructions s = .ok operands linker)
    (h : maxLength < stopFrom 0 (instructions.zip operands)) :
    Refused instructions (.codeLength maxLength) (.reached linker)
  | instruction {operands : List UInt16} {s linker : Linker} {layout : Layout} {index : Label}
    {i : Instruction} {cause : Invalid}
    (hoperands : Linking.each Bytecode.operand instructions s = .ok operands linker)
    (hlayout : Bytecode.layout (instructions.zip operands) = .ok layout)
    (hi : instructions[index]? = some i) (h : i.Refused layout (layout.place index) cause) :
    Refused instructions (.atInstruction index cause) (.reached linker)

namespace Bytecode

variable {linked : Prop}

/-! ## One instruction -/

theorem not_nodup_of_hasEqualNeighbours : ∀ {pairs : List (Int32 × Label)},
    hasEqualNeighbours pairs = true → ¬ (pairs.map (·.1)).Nodup
  | [], h | [_], h => nomatch h
  | a :: b :: rest, h => by
    rw [hasEqualNeighbours, Bool.or_eq_true, beq_iff_eq] at h
    intro hnodup
    rw [List.map_cons, List.nodup_cons] at hnodup
    rcases h with heq | hrest
    · exact hnodup.1 (heq ▸ .head _)
    · exact not_nodup_of_hasEqualNeighbours hrest hnodup.2

/-- **An instruction whose operation code goes with its operands** is only
    refused for its reasons. -/
theorem refused_of_emit {layout : Layout} {operand : UInt16} {offset : Nat} {i : Instruction}
    {cause : Invalid} (hsound : i.Sound linked) (h : emit layout operand offset i = .error cause) :
    i.Refused layout offset cause := by
  unfold Instruction.Sound at hsound
  cases i with
  | simple opcode =>
    rw [emit, if_pos ((Opcode.isPlain_iff_form opcode).mpr hsound)] at h
    cases h
  | push opcode value =>
    rw [emit] at h
    rcases hsound with ⟨rfl, hfits⟩ | rfl
    · rw [if_pos rfl, if_pos hfits] at h; cases h
    · rw [if_neg (by decide), if_pos rfl] at h; cases h
  | ldc constant =>
    rw [emit] at h
    split at h
    · cases h
    · split at h <;> cases h
  | var opcode index =>
    have hvariable := (Opcode.isVariable_iff_form opcode).mpr hsound
    rw [emit, emitVar, if_neg (by simp [hvariable])] at h
    split at h
    · cases h
    · split at h <;> cases h
  | iinc index increment =>
    rw [emit] at h
    split at h <;> cases h
  | jump opcode target =>
    rw [emit, emitJump] at h
    split at h
    next => cases h
    next hnarrow =>
      have hform : Opcode.form? opcode = some .jump :=
        hsound.resolve_right (mt (Opcode.isWideJump_iff_form opcode).mpr hnarrow)
      rw [if_pos ((Opcode.isJump_iff_form opcode).mpr hform)] at h
      dsimp only at h
      split at h
      next => cases h
      next hfar => cases h; exact .distance hform hfar
  | tableSwitch default low high targets =>
    rw [emit, emitTableSwitch, if_neg] at h
    · cases h
    · rintro (hcount | hlt)
      · exact hcount hsound.1
      · exact hsound.2 hlt
  | lookupSwitch default pairs =>
    simp only [emit, emitLookupSwitch] at h
    split at h
    next hequal =>
      cases h
      have hperm : (sortPairs pairs).Perm pairs := List.mergeSort_perm _ _
      exact .keys fun hnodup =>
        not_nodup_of_hasEqualNeighbours hequal ((hperm.map (·.1)).nodup_iff.mpr hnodup)
    next => cases h
  | field opcode member =>
    rw [emit, if_pos ((Opcode.isAccess_iff_form opcode).mpr hsound)] at h
    cases h
  | method opcode member interface =>
    simp only [emit, emitMethod] at h
    split at h
    next hinterface =>
      subst hinterface
      split at h
      next cause' htype => cases h; exact .descriptor htype
      next type htype =>
        split at h
        next hslots => cases h; exact .slots htype hslots
        next => cases h
    next hother =>
      rw [if_pos (((Opcode.isCall_iff_form opcode).mpr hsound).resolve_left hother)] at h
      cases h
  | invokeDynamic name descriptor bootstrap => cases h
  | type opcode className =>
    rw [emit, if_pos ((Opcode.isOfType_iff_form opcode).mpr hsound)] at h
    cases h
  | newArray atype => rw [emit, if_pos hsound] at h; cases h
  | multiNewArray className dimensions => rw [emit, if_neg hsound] at h; cases h

/-- What an instruction refers to is entered, or the pool is full. -/
theorem enters_operand {i : Instruction} (hsound : i.Sound linked) :
    Enters (Linker.Tidy linked) (operand i) i.mentions (fun _ => True) Invalid.PoolFull := by
  cases i with
  | ldc constant => exact enters_constant hsound
  | field opcode member => exact enters_request (.fieldRef member) rfl
  | method opcode member interface => exact enters_request (.methodRef member interface) rfl
  | type opcode className => exact enters_type className
  | multiNewArray className dimensions => exact enters_type className
  | invokeDynamic name descriptor bootstrap => exact enters_callSite name descriptor hsound
  | _ => exact .pure trivial

/-! ## All instructions -/

/-- Instructions that are refused a layout end behind the limit. -/
theorem length_of_layoutFrom {done : Array Nat} {offset : Nat} {placed : Placed}
    {cause : Invalid} (h : layoutFrom done offset placed = .error cause) :
    cause = .codeLength maxLength ∧ maxLength < stopFrom offset placed := by
  induction placed generalizing done offset with
  | nil => exact nomatch h
  | cons p placed ih =>
    obtain ⟨i, operand⟩ := p
    simp only [layoutFrom] at h
    split at h
    next hlong =>
      cases h
      exact ⟨rfl, Nat.lt_of_lt_of_le hlong (le_stopFrom _ placed)⟩
    next => exact ih h

theorem refused_of_emitFrom {layout : Layout} {done : List Bytes} {index : Nat} {placed : Placed}
    {cause : Invalid} (hsound : ∀ p ∈ placed, p.1.Sound linked)
    (h : emitFrom layout done index placed = .error cause) :
    ∃ k p inner, placed[k]? = some p ∧ cause = .atInstruction (index + k) inner ∧
      p.1.Refused layout (layout.place (index + k)) inner := by
  induction placed generalizing done index with
  | nil => exact nomatch h
  | cons p placed ih =>
    obtain ⟨i, operand⟩ := p
    rw [List.forall_mem_cons] at hsound
    simp only [emitFrom] at h
    split at h
    next inner hinner =>
      cases h
      exact ⟨0, (i, operand), inner, rfl, rfl, refused_of_emit hsound.1 hinner⟩
    next =>
      obtain ⟨k, p, inner, hp, rfl, hrefused⟩ := ih hsound.2 h
      refine ⟨k + 1, p, inner, hp, ?_, ?_⟩
      · rw [Nat.add_assoc, Nat.add_comm 1]
      · rwa [Nat.add_assoc, Nat.add_comm 1] at hrefused

/-- **Instructions that go with their operation codes** are only refused for
    their reasons. -/
theorem enters_encode {instructions : List Instruction}
    (hsound : ∀ i ∈ instructions, i.Sound linked) :
    Enters (Linker.Tidy linked) (encode instructions) (instructions.flatMap Instruction.mentions)
      (fun written => ∃ starts length, written.2.Ascends starts length ∧
        starts.length = instructions.length) (Refused instructions) := by
  have hoperands : Enters (Linker.Tidy linked) (Linking.each operand instructions)
      (instructions.flatMap Instruction.mentions)
      (fun operands => operands.length = instructions.length) (Refused instructions) := by
    refine (Enters.each fun i hi => enters_operand (hsound i hi)).causes ?_
    rintro _ _ ⟨⟩
    exact .full
  refine fun s hs => (hoperands s hs).last fun operands linker hrun hlinker hlength => ?_
  have hplaced : (instructions.zip operands).length = instructions.length := by
    rw [List.length_zip, hlength, Nat.min_self]
  refine .lift (fun l hl => .lift (fun bytes _ => ?_) fun cause hcause => ?_) fun cause hcause => ?_
  · exact .pure hlinker ⟨_, _, ascends_layout hl, by rw [length_startsFrom, hplaced]⟩
  · obtain ⟨k, p, inner, hp, rfl, hrefused⟩ :=
      refused_of_emitFrom (fun p hp => hsound p.1 (List.of_mem_zip hp).1) hcause
    rw [Nat.zero_add] at hrefused ⊢
    exact .instruction hrun hl (List.getElem?_zip_eq_some.mp hp).1 hrefused
  · obtain ⟨rfl, hlong⟩ := length_of_layoutFrom hcause
    exact .length hrun hlong

end Bytecode

end JvmClass
