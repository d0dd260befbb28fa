/-
  Instructions survive writing.

  * `Instruction.normalize` is the instruction that is read for a written one:
    its constants are normal and the pairs of a `lookupswitch` ascend;
  * `Instruction.OperandLeadsTo`: a pool index stands for what an instruction
    refers to; `yields_operand` says so of the index that is written;
  * `readsAt_emit`: the bytes of an instruction are read as its normal form,
    with offsets for its branch targets.
-/
import JvmClass.Proofs.Bytecode.Layout
import JvmClass.Proofs.Bytecode.Operands
import JvmClass.Proofs.Linkage.Constants

namespace JvmClass

namespace Instruction

/-- The instruction that is read for a written one. -/
def normalize : Instruction → Instruction
  | ldc constant => .ldc constant.normalize
  | lookupSwitch default pairs => .lookupSwitch default (Bytecode.sortPairs pairs)
  | invokeDynamic name descriptor bootstrap => .invokeDynamic name descriptor bootstrap.normalize
  | i => i

/-- The instruction with `f` on every branch target. -/
def mapTargets (f : Label → Label) : Instruction → Instruction
  | jump opcode target => .jump opcode (f target)
  | tableSwitch default low high targets => .tableSwitch (f default) low high (targets.map f)
  | lookupSwitch default pairs =>
    .lookupSwitch (f default) (pairs.map fun (key, target) => (key, f target))
  | i => i

/-- The pool index `operand` stands for what the instruction refers to. -/
def OperandLeadsTo (linkage : Linkage) (operand : UInt16) : Instruction → Prop
  | ldc constant => linkage.constant operand = .ok constant.normalize
  | field _ member => linkage.pool.member operand = .ok ⟨member, true, false⟩
  | method _ member interface => linkage.pool.member operand = .ok ⟨member, false, interface⟩
  | invokeDynamic name descriptor bootstrap => ∃ row nameAndType,
    linkage.pool.get operand = .ok (.invokeDynamic row nameAndType) ∧
      linkage.pool.nameAndType nameAndType = .ok (name, descriptor) ∧
      linkage.bootstrapMethod row = .ok bootstrap.normalize
  | type _ className | multiNewArray className _ =>
    linkage.pool.className operand = .ok className
  | _ => True

/-- The constants and the bootstrap methods of an instruction do not nest too
    deep to be read. -/
def Nests : Instruction → Prop
  | ldc constant => constant.depth ≤ Linkage.maxDepth + 1
  | invokeDynamic _ _ bootstrap => Constant.depths bootstrap.arguments ≤ Linkage.maxDepth
  | _ => True

end Instruction

namespace Bytecode

open Reader Bytes

/-! ## Operands -/

/-- **The pool index of an instruction leads to what it refers to** from then
    on. -/
theorem yields_operand {i : Instruction} (hnests : i.Nests) :
    Yields (operand i) fun linker index => i.OperandLeadsTo linker.toLinkage index := by
  cases i with
  | ldc constant =>
    exact (Linking.yields_constant constant).mono fun linker index _ h => h _ hnests
  | field opcode member => exact (Pool.yields_fieldRef member).lift
  | method opcode member interface => exact (Pool.yields_methodRef member interface).lift
  | type opcode className => exact (Pool.yields_classRef className).lift
  | multiNewArray className dimensions => exact (Pool.yields_classRef className).lift
  | invokeDynamic name descriptor bootstrap =>
    refine (Linking.yields_bootstrapMethod hnests).bind fun row => ?_
    refine (Pool.yields_addOne (.invokeDynamic row) (Pool.yields_nameAndType name descriptor)
      (by simp)).lift.mono ?_
    rintro linker index - ⟨nameAndType, hget, hname⟩ hrow
    exact ⟨row, nameAndType, hget, hname, hrow⟩
  | _ => exact .pure fun _ _ => trivial

/-! ## Branch distances -/

section
variable {layout : Layout} {starts : List Nat} {length offset : Nat}

theorem branchTarget_of_toInt (hlayout : layout.Ascends starts length) {label : Label}
    {distance : Int32} (h : distance.toInt = Bytecode.distance layout offset label) :
    branchTarget offset distance = .ok (layout.place label) := by
  have hle := hlayout.place_le label
  have hmax := hlayout.le
  simp only [maxLength] at hmax
  have htarget : (offset : Int) + distance.toInt = layout.place label := by
    rw [h, Bytecode.distance, Layout.place]; omega
  simp only [branchTarget, htarget]
  rw [if_pos (by omega)]
  simp [Pure.pure, Except.pure]

theorem reads_wideBranch (hlayout : layout.Ascends starts length) (hoffset : offset ≤ maxLength)
    (label : Label) :
    Reads (wideBranch offset) (distance4 layout offset label) (layout.place label) := by
  have hle := hlayout.place_le label
  have hmax := hlayout.le
  simp only [maxLength] at hmax hoffset
  have htoInt : (Int32.ofInt (distance layout offset label)).toInt =
      distance layout offset label := by
    have : distance layout offset label = (layout.place label : Int) - offset := rfl
    exact Int32.toInt_ofInt_of_le (by omega) (by omega)
  exact (reads_i4 _).thenOk (branchTarget_of_toInt hlayout htoInt)

end

/-! ## Small numbers -/

theorem toUInt8_toUInt16 {v : UInt16} (h : v ≤ 0xFF) : v.toUInt8.toUInt16 = v := by
  have hle : v.toNat ≤ 0xFF := UInt16.le_iff_toNat_le.mp h
  apply UInt16.toNat_inj.mp
  simp only [UInt8.toNat_toUInt16, UInt16.toNat_toUInt8]
  omega

theorem toInt8_toInt16 {v : Int16} (h : fitsByte v = true) : v.toInt8.toInt16 = v := by
  simp only [fitsByte, Bool.and_eq_true, decide_eq_true_eq, Int16.le_iff_toInt_le] at h
  apply Int16.toInt_inj.mp
  rw [Int8.toInt_toInt16, Int16.toInt_toInt8]
  have hlow : (-128 : Int16).toInt = -128 := rfl
  have hhigh : (127 : Int16).toInt = 127 := rfl
  rw [hlow, hhigh] at h
  exact Int.bmod_eq_of_le (by omega) (by omega)

/-! ## Instructions by their form -/

section
variable {layout : Layout} {starts : List Nat} {length : Nat} {linkage : Linkage}
  {before after w : Bytes} {operand : UInt16}

theorem readsAt_emitVar {opcode : UInt8} {index : UInt16}
    (h : emitVar opcode index = .ok w) :
    ReadsAt before after (instruction linkage) w (.var opcode index) := by
  unfold emitVar at h
  split at h
  next => exact nomatch h
  next hvariable =>
    have hform := (Opcode.isVariable_iff_form opcode).mp (by simpa using hvariable)
    split at h
    next hshort =>
      have hindex := toUInt8_toUInt16 (v := index) (UInt16.le_trans hshort.2 (by decide))
      have hle : index.toUInt8 ≤ 3 := by
        have := UInt16.le_iff_toNat_le.mp hshort.2
        rw [UInt8.le_iff_toNat_le, UInt16.toNat_toUInt8]
        exact Nat.le_trans (Nat.mod_le ..) this
      obtain ⟨hload, hstore⟩ := localVar_short opcode hform hshort.1 _ hle
      cases h
      split
      next hlt =>
        obtain ⟨hform, hopcode, hk⟩ := hload hlt
        refine readsAt_instruction _ hform ?_
        simp only [operands, hopcode, hk, hindex]
        exact ReadsAt.pure
      next hge =>
        obtain ⟨hform, hopcode, hk⟩ := hstore hge
        refine readsAt_instruction _ hform ?_
        simp only [operands, hopcode, hk, hindex]
        exact ReadsAt.pure
    next =>
      split at h
      next hle =>
        cases h
        have hread := (reads_u1 index.toUInt8).map (g := fun v => Instruction.var opcode v.toUInt16)
        rw [toUInt8_toUInt16 hle] at hread
        exact readsAt_instruction _ hform (hread _ _)
      next =>
        cases h
        refine readsAt_instruction .wide rfl (Reads.consU1 ?_ _ _)
        rw [hform]
        exact (reads_u2 index).map

theorem readsAt_emitJump (hlayout : layout.Ascends starts length)
    (hoffset : before.length ≤ maxLength) {opcode : UInt8} {target : Label}
    (h : emitJump layout before.length opcode target = .ok w) :
    ReadsAt before after (instruction linkage) w (.jump opcode (layout.place target)) := by
  unfold emitJump at h
  split at h
  next hjump =>
    cases h
    refine readsAt_instruction _ ((Opcode.isWideJump_iff_form opcode).mp hjump) ?_
    exact (reads_wideBranch hlayout hoffset target).map _ _
  next =>
    split at h
    next hjump =>
      dsimp only at h
      split at h
      next hfits =>
        cases h
        refine readsAt_instruction _ ((Opcode.isJump_iff_form opcode).mp hjump) ?_
        have htoInt : (Int16.ofInt (distance layout before.length target)).toInt32.toInt =
            distance layout before.length target := by
          rw [Int16.toInt_toInt32, Int16.toInt_ofInt_of_le (by omega) (by omega)]
        exact (reads_i2 _).thenMap (branchTarget_of_toInt hlayout htoInt) _ _
      next => exact nomatch h
    next => exact nomatch h

theorem reads_wideBranches (hlayout : layout.Ascends starts length) {offset : Nat}
    (hoffset : offset ≤ maxLength) (targets : List Label) :
    Reads (times targets.length (wideBranch offset)) (targets.flatMap (distance4 layout offset))
      (targets.map layout.place) := by
  rw [List.flatMap_def]
  refine reads_times ?_ (by simp)
  rw [List.forall₂_map_left_iff, List.forall₂_map_right_iff, List.forall₂_same]
  exact fun target _ => reads_wideBranch hlayout hoffset target

theorem readsAt_emitTableSwitch (hlayout : layout.Ascends starts length)
    (hoffset : before.length ≤ maxLength) {default : Label} {low high : Int32}
    {targets : List Label}
    (h : emitTableSwitch layout before.length default low high targets = .ok w) :
    ReadsAt before after (instruction linkage) w
      (.tableSwitch (layout.place default) low high (targets.map layout.place)) := by
  unfold emitTableSwitch at h
  split at h
  next => exact nomatch h
  next hfits =>
    cases h
    rw [not_or, not_not, Int32.not_lt] at hfits
    obtain ⟨hcount, hrange⟩ := hfits
    simp only [List.cons_append, List.append_assoc]
    refine readsAt_instruction .tableSwitch rfl ?_
    refine (reads_skip (by simp [switchGap_eq]) _ _).bind ?_
    refine (reads_wideBranch hlayout hoffset default _ _).bind ?_
    refine (reads_i4 low _ _).bind ((reads_i4 high _ _).bind ?_)
    rw [if_neg (Int32.not_lt.mpr hrange)]
    refine (reads_remaining _ _).bindNil ?_
    have htoNat : (high.toInt - low.toInt + 1).toNat = targets.length := by omega
    have hlength : (targets.flatMap (distance4 layout before.length)).length =
        4 * targets.length := by
      simp [List.length_flatMap, distance4, Bytes.u4, Nat.mul_comm]
    rw [htoNat, if_neg (by simp [hlength]; omega)]
    exact (reads_wideBranches hlayout hoffset targets).map _ _

theorem reads_pairs (hlayout : layout.Ascends starts length) {offset : Nat}
    (hoffset : offset ≤ maxLength) (pairs : List (Int32 × Label)) :
    Reads (times pairs.length do
        let key ← i4
        return (key, ← wideBranch offset))
      (pairs.flatMap fun (key, label) => u4 key.toUInt32 ++ distance4 layout offset label)
      (pairs.map fun (key, label) => (key, layout.place label)) := by
  rw [List.flatMap_def]
  refine reads_times ?_ (by simp)
  rw [List.forall₂_map_left_iff, List.forall₂_map_right_iff, List.forall₂_same]
  rintro ⟨key, label⟩ -
  exact (reads_i4 key).bind (reads_wideBranch hlayout hoffset label).map

theorem readsAt_emitLookupSwitch (hlayout : layout.Ascends starts length)
    (hoffset : before.length + w.length ≤ maxLength) {default : Label}
    {pairs : List (Int32 × Label)}
    (h : emitLookupSwitch layout before.length default pairs = .ok w) :
    ReadsAt before after (instruction linkage) w
      (.lookupSwitch (layout.place default)
        ((sortPairs pairs).map fun (key, label) => (key, layout.place label))) := by
  unfold emitLookupSwitch at h
  dsimp only at h
  split at h
  next => exact nomatch h
  next =>
    cases h
    generalize sortPairs pairs = sorted at hoffset ⊢
    have hlength : (sorted.flatMap fun (key, label) =>
        u4 key.toUInt32 ++ distance4 layout before.length label).length = sorted.length * 8 := by
      simp [List.length_flatMap, distance4, Bytes.u4]
    simp only [List.cons_append, List.append_assoc, List.length_cons, List.length_append,
      hlength, maxLength] at hoffset ⊢
    have hcount : (Int32.ofNat sorted.length).toInt = sorted.length :=
      Int32.toInt_ofNat_of_lt (by omega)
    have hpos : ¬ Int32.ofNat sorted.length < 0 := by
      rw [Int32.not_lt, Int32.le_iff_toInt_le, hcount]
      exact Int.natCast_nonneg _
    refine readsAt_instruction .lookupSwitch rfl ?_
    refine (reads_skip (by simp [switchGap_eq]) _ _).bind ?_
    refine (reads_wideBranch hlayout (by simp only [maxLength]; omega) default _ _).bind ?_
    rw [← Int32.toUInt32_ofNat']
    refine (reads_i4 _ _ _).bind ((reads_remaining _ _).bindNil ?_)
    rw [hcount, Int.toNat_natCast, if_neg (by
      rw [not_or]; exact ⟨hpos, by simp only [List.length_append, hlength]; omega⟩)]
    exact (reads_pairs hlayout (by simp only [maxLength]; omega) sorted).map _ _

theorem readsAt_emitMethod {opcode : UInt8} {member : Member} {interface : Bool}
    (hmember : linkage.pool.member operand = .ok ⟨member, false, interface⟩)
    (h : emitMethod operand opcode member = .ok w) :
    ReadsAt before after (instruction linkage) w (.method opcode member interface) := by
  unfold emitMethod at h
  split at h
  next hopcode =>
    subst hopcode
    split at h
    next => exact nomatch h
    next =>
      split at h
      next => exact nomatch h
      next =>
        cases h
        refine readsAt_instruction .method rfl ?_
        refine (reads_u2 operand _ _).bind ?_
        rw [if_pos rfl]
        refine ReadsAt.bindDone (reads_skip rfl _ _) ?_
        exact ReadsAt.lift hmember ReadsAt.pure
  next hopcode =>
    split at h
    next hcall =>
      cases h
      refine readsAt_instruction _ ((Opcode.isCall_iff_form opcode).mp (.inr hcall)) ?_
      refine ReadsAt.bindDone (reads_u2 operand _ _) ?_
      rw [if_neg hopcode]
      exact ReadsAt.lift hmember ReadsAt.pure
    next => exact nomatch h

theorem readsAt_constant {constant : Constant}
    (hconstant : linkage.constant operand = .ok constant.normalize)
    (h : emit layout operand before.length (.ldc constant) = .ok w) :
    ReadsAt before after (instruction linkage) w (.ldc constant.normalize) := by
  have hwide := Constant.isWide_normalize constant
  simp only [emit] at h
  split at h
  next hc =>
    cases h
    refine readsAt_instruction .constant2W rfl ?_
    refine ReadsAt.bindDone (reads_u2 operand _ _) (ReadsAt.lift hconstant ?_)
    rw [if_neg (by simp [hwide, hc])]
    exact ReadsAt.pure
  next hc =>
    split at h
    next hle =>
      cases h
      refine readsAt_instruction .constant rfl ?_
      have hread := (reads_u1 operand.toUInt8).map' (g := UInt8.toUInt16)
      rw [toUInt8_toUInt16 hle] at hread
      refine ReadsAt.bindDone (hread _ _) (ReadsAt.lift hconstant ?_)
      rw [if_neg (by simp [hwide, hc])]
      exact ReadsAt.pure
    next =>
      cases h
      refine readsAt_instruction .constantW rfl ?_
      refine ReadsAt.bindDone (reads_u2 operand _ _) (ReadsAt.lift hconstant ?_)
      rw [if_neg (by simp [hwide, hc])]
      exact ReadsAt.pure

/-- **The bytes of an instruction are read as its normal form**, with offsets
    for its branch targets. -/
theorem readsAt_emit (hlayout : layout.Ascends starts length) {i : Instruction}
    (hoffset : before.length + w.length ≤ maxLength) (hoperand : i.OperandLeadsTo linkage operand)
    (h : emit layout operand before.length i = .ok w) :
    ReadsAt before after (instruction linkage) w (i.normalize.mapTargets layout.place) := by
  have hbefore : before.length ≤ maxLength := by omega
  cases i with
  | simple opcode =>
    simp only [emit] at h
    split at h
    next hplain =>
      cases h
      exact readsAt_instruction _ ((Opcode.isPlain_iff_form opcode).mp hplain) ReadsAt.pure
    next => exact nomatch h
  | push opcode value =>
    simp only [emit] at h
    split at h
    next hopcode =>
      subst hopcode
      split at h
      next hfits =>
        cases h
        have hread := (reads_i1 value.toInt8).map (g := fun v => Instruction.push 0x10 v.toInt16)
        rw [toInt8_toInt16 hfits] at hread
        exact readsAt_instruction .bytePush rfl (hread _ _)
      next => exact nomatch h
    next =>
      split at h
      next hopcode =>
        subst hopcode
        cases h
        exact readsAt_instruction .shortPush rfl ((reads_i2 value).map _ _)
      next => exact nomatch h
  | ldc constant => exact readsAt_constant hoperand h
  | var opcode index => exact readsAt_emitVar h
  | iinc index increment =>
    simp only [emit] at h
    split at h
    next hfits =>
      cases h
      have hread := (reads_u1 index.toUInt8).bind (f := fun v => i1 >>= fun k =>
        (return .iinc v.toUInt16 k.toInt16 : Reader Instruction)) (reads_i1 increment.toInt8).map
      rw [toUInt8_toUInt16 hfits.1, toInt8_toInt16 hfits.2] at hread
      exact readsAt_instruction .increment rfl (hread _ _)
    next =>
      cases h
      refine readsAt_instruction .wide rfl (Reads.consU1 ?_ _ _)
      exact (reads_u2 index).bind (reads_i2 increment).map
  | jump opcode target => exact readsAt_emitJump hlayout hbefore h
  | tableSwitch default low high targets => exact readsAt_emitTableSwitch hlayout hbefore h
  | lookupSwitch default pairs => exact readsAt_emitLookupSwitch hlayout hoffset h
  | field opcode member =>
    simp only [emit] at h
    split at h
    next haccess =>
      cases h
      refine readsAt_instruction _ ((Opcode.isAccess_iff_form opcode).mp haccess) ?_
      exact ReadsAt.bindDone (reads_u2 operand _ _) (ReadsAt.lift hoperand ReadsAt.pure)
    next => exact nomatch h
  | method opcode member interface => exact readsAt_emitMethod hoperand h
  | invokeDynamic name descriptor bootstrap =>
    obtain ⟨row, nameAndType, hget, hname, hrow⟩ := hoperand
    cases h
    refine readsAt_instruction .callSite rfl ((reads_u2 operand _ _).bind ?_)
    refine ReadsAt.bindDone (reads_skip rfl _ _) ?_
    refine ReadsAt.lift hget (ReadsAt.lift hname (ReadsAt.lift hrow ReadsAt.pure))
  | type opcode className =>
    simp only [emit] at h
    split at h
    next htype =>
      cases h
      refine readsAt_instruction _ ((Opcode.isOfType_iff_form opcode).mp htype) ?_
      exact (reads_u2 operand).thenMap hoperand _ _
    next => exact nomatch h
  | newArray atype =>
    simp only [emit] at h
    split at h
    next hatype =>
      cases h
      refine readsAt_instruction .newArray rfl ?_
      refine ReadsAt.bindDone (reads_u1 atype _ _) ?_
      rw [if_pos hatype]
      exact ReadsAt.pure
    next => exact nomatch h
  | multiNewArray className dimensions =>
    simp only [emit] at h
    split at h
    next => exact nomatch h
    next hdimensions =>
      cases h
      refine readsAt_instruction .multiNewArray rfl ((reads_u2 operand _ _).bind ?_)
      refine ReadsAt.lift hoperand (ReadsAt.bindDone (reads_u1 dimensions _ _) ?_)
      rw [if_neg hdimensions]
      exact ReadsAt.pure

end

end Bytecode

end JvmClass
