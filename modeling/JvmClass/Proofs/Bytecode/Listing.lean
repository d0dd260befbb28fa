/-
  Lists of instructions survive writing.

  * `Emitted` are the bytes of instructions, one after the other from an
    offset on; `emitted_of_emitFrom` says that they are what is written;
  * `readsAt_instructions`: they are read as the normal forms of the
    instructions, with their offsets;
  * `yields_encode`: what is written for a list of instructions is decoded as
    their normal forms, and the labels are those of the layout.
-/
import JvmClass.Proofs.Bytecode.Instruction

namespace JvmClass

namespace Instruction

theorem mapTargetsM_mapTargets {f : Label → Label} {g : Label → Except Malformed Label}
    {i : Instruction} (h : ∀ target ∈ i.targets, g (f target) = .ok target) :
    (i.mapTargets f).mapTargetsM g = .ok i := by
  cases i with
  | jump opcode target =>
    simp only [mapTargets, mapTargetsM, h target (by simp [targets])]
    rfl
  | tableSwitch default low high labels =>
    have hlabels : (labels.map f).mapM g = .ok labels := by
      rw [Result.mapM_eq_ok, List.forall₂_map_left_iff, List.forall₂_same]
      exact fun target htarget => h target (.tail _ htarget)
    simp only [mapTargets, mapTargetsM, h default (by simp [targets]), hlabels]
    rfl
  | lookupSwitch default pairs =>
    refine Result.bind_eq_ok.mpr ⟨default, h default (.head _), ?_⟩
    refine Result.bind_eq_ok.mpr ⟨pairs, Result.mapM_eq_ok.mpr ?_, rfl⟩
    rw [List.forall₂_map_left_iff, List.forall₂_same]
    rintro ⟨key, target⟩ hpair
    have htarget : target ∈ pairs.map (·.2) := List.mem_map_of_mem (f := (·.2)) hpair
    simp only [h target (.tail _ htarget)]
    rfl
  | _ => rfl

/-- The normal form has the same branch targets, in another order. -/
theorem mem_targets_normalize {i : Instruction} {target : Label} :
    target ∈ i.normalize.targets ↔ target ∈ i.targets := by
  cases i with
  | lookupSwitch default pairs =>
    simp [normalize, targets, Bytecode.sortPairs, List.mem_mergeSort]
  | _ => rfl

end Instruction

namespace Bytecode

open Reader Bytes

theorem length_distance4 (layout : Layout) (offset : Nat) (label : Label) :
    (distance4 layout offset label).length = 4 := by
  simp [distance4, Bytes.u4]

theorem length_sortPairs (pairs : List (Int32 × Label)) :
    (sortPairs pairs).length = pairs.length := by
  simp [sortPairs]

theorem length_emitVar {opcode : UInt8} {index : UInt16} {w : Bytes}
    (h : emitVar opcode index = .ok w) (offset : Nat) :
    w.length = size 0 offset (.var opcode index) := by
  unfold emitVar at h
  split at h
  next => exact nomatch h
  next =>
    split at h
    next hshort => cases h; simp [size, hshort.1, hshort.2]
    next hlong =>
      have hfour : opcode ≠ Opcode.ret → ¬ index ≤ 3 := fun hret hindex => hlong ⟨hret, hindex⟩
      split at h
      next hle =>
        cases h
        by_cases hret : opcode = Opcode.ret
        · simp [size, hret, hle]
        · simp [size, hret, hfour hret, hle]
      next hgt =>
        cases h
        by_cases hret : opcode = Opcode.ret
        · simp [size, hret, hgt, Bytes.u2]
        · simp only [size, hret, hfour hret, hgt, Bytes.u2]; rfl

theorem length_emitJump {layout : Layout} {offset : Nat} {opcode : UInt8} {target : Label}
    {w : Bytes} (h : emitJump layout offset opcode target = .ok w) :
    w.length = size 0 offset (.jump opcode target) := by
  have hwide : Opcode.isWideJump opcode = true ↔ opcode = Opcode.gotoW ∨ opcode = Opcode.jsrW := by
    simp [Opcode.isWideJump]
  unfold emitJump at h
  split at h
  next hjump => cases h; simp [size, hwide.mp hjump, length_distance4]
  next hnarrow =>
    rw [hwide] at hnarrow
    split at h
    next =>
      dsimp only at h
      split at h
      next => cases h; simp [size, hnarrow, Bytes.u2]
      next => cases h
    next => cases h

/-- **An instruction takes as many bytes as its layout says.** -/
theorem length_emit {layout : Layout} {operand : UInt16} {offset : Nat} {i : Instruction}
    {w : Bytes} (h : emit layout operand offset i = .ok w) : w.length = size operand offset i := by
  cases i with
  | var opcode index => exact length_emitVar h offset
  | jump opcode target => exact length_emitJump h
  | _ =>
    simp only [emit, emitTableSwitch, emitLookupSwitch, emitMethod] at h
    repeat' split at h
    all_goals cases h
    all_goals simp_all [size, length_distance4, Bytes.u2, Bytes.u4, length_sortPairs]
    all_goals omega

/-- The bytes of instructions that start at an offset, one after the other. -/
inductive Emitted (layout : Layout) : Nat → Placed → List Bytes → Prop where
  | nil (offset : Nat) : Emitted layout offset [] []
  | cons {offset : Nat} {i : Instruction} {operand : UInt16} {rest : Placed} {w : Bytes}
      {ws : List Bytes} (hemit : emit layout operand offset i = .ok w)
      (hrest : Emitted layout (offset + w.length) rest ws) :
      Emitted layout offset ((i, operand) :: rest) (w :: ws)

theorem emitted_of_emitFrom {layout : Layout} {done : List Bytes} {index offset : Nat}
    {placed : Placed} {bytes : Bytes} (h : emitFrom layout done index placed = .ok bytes)
    (hplaces : ∀ k place, (startsFrom offset placed)[k]? = some place →
      layout.place (index + k) = place) :
    ∃ ws, bytes = (done.reverse ++ ws).flatten ∧ Emitted layout offset placed ws := by
  induction placed generalizing done index offset with
  | nil => cases h; exact ⟨[], by simp, .nil offset⟩
  | cons p placed ih =>
    obtain ⟨i, operand⟩ := p
    have hplace : layout.offsets[index]?.getD 0 = offset := hplaces 0 offset rfl
    simp only [emitFrom, hplace] at h
    split at h
    next => exact nomatch h
    next w hw =>
      have hlength := length_emit hw
      obtain ⟨ws, rfl, hws⟩ := ih h fun k place (hk : (startsFrom (offset + w.length) placed)[k]? = _) => by
        rw [← hplaces (k + 1) place (by simpa [startsFrom, hlength] using hk),
          Nat.add_assoc, Nat.add_comm 1]
      exact ⟨w :: ws, by simp, .cons hw hws⟩

theorem Emitted.length {layout : Layout} {offset : Nat} {placed : Placed} {ws : List Bytes}
    (h : Emitted layout offset placed ws) :
    offset + ws.flatten.length = stopFrom offset placed := by
  induction h with
  | nil => rfl
  | cons hemit _ ih =>
    rw [stopFrom, ← length_emit hemit, ← ih, List.flatten_cons, List.length_append]
    omega

/-- **Instructions end where their layout says.** -/
theorem emitted_of_layout {layout : Layout} {placed : Placed} {bytes : Bytes}
    (hlayout : Bytecode.layout placed = .ok layout)
    (hbytes : emitFrom layout [] 0 placed = .ok bytes) :
    ∃ ws, bytes = ws.flatten ∧ Emitted layout 0 placed ws ∧
      layout.Ascends (startsFrom 0 placed) bytes.length := by
  have hascends := ascends_layout hlayout
  obtain ⟨ws, rfl, hemitted⟩ := emitted_of_emitFrom hbytes
      fun k place (hk : (startsFrom 0 placed)[k]? = _) => by
    have hlt := (List.getElem?_eq_some_iff.mp hk).1
    have := hascends.place_of_lt hlt
    rw [hk, Option.some.injEq] at this
    rw [Nat.zero_add, this]
  have hlength := hemitted.length
  rw [Nat.zero_add] at hlength
  rw [← hlength] at hascends
  exact ⟨ws, rfl, hemitted, hascends⟩

theorem encode_eq_ok {instructions : List Instruction} {linker next : Linker} {out : Bytes}
    {layout : Layout} :
    encode instructions linker = .ok (out, layout) next ↔
      ∃ operands, Linking.each operand instructions linker = .ok operands next ∧
        Bytecode.layout (instructions.zip operands) = .ok layout ∧
        emitFrom layout [] 0 (instructions.zip operands) = .ok out := by
  constructor
  · intro h
    obtain ⟨operands, s, hoperands, h⟩ := Linking.bind_eq_ok.mp h
    obtain ⟨_, t, hlayout, h⟩ := Linking.bind_eq_ok.mp h
    obtain ⟨_, u, hbytes, h⟩ := Linking.bind_eq_ok.mp h
    cases h
    obtain ⟨hout, rfl⟩ := Linking.liftM_eq_ok.mp hbytes
    obtain ⟨hoffsets, rfl⟩ := Linking.liftM_eq_ok.mp hlayout
    exact ⟨operands, hoperands, hoffsets, hout⟩
  · rintro ⟨operands, hoperands, hlayout, hbytes⟩
    refine Linking.bind_eq_ok.mpr ⟨operands, next, hoperands, ?_⟩
    refine Linking.bind_eq_ok.mpr ⟨layout, next, Linking.liftM_eq_ok.mpr ⟨hlayout, rfl⟩, ?_⟩
    exact Linking.bind_eq_ok.mpr ⟨out, next, Linking.liftM_eq_ok.mpr ⟨hbytes, rfl⟩, rfl⟩

section
variable {layout : Layout} {starts : List Nat} {length : Nat} {linkage : Linkage}

/-- The normal forms of instructions with their offsets. -/
def located (layout : Layout) (offset : Nat) (placed : Placed) : List (Nat × Instruction) :=
  (startsFrom offset placed).zip
    (placed.map fun p => p.1.normalize.mapTargets layout.place)

theorem readsAt_instructions (hlayout : layout.Ascends starts length) {offset : Nat}
    {placed : Placed} {ws : List Bytes} (h : Emitted layout offset placed ws)
    (hoperands : ∀ p ∈ placed, p.1.OperandLeadsTo linkage p.2)
    {before : Bytes} (hbefore : before.length = offset)
    (hstop : stopFrom offset placed ≤ maxLength) {fuel : Nat} (hfuel : ws.flatten.length ≤ fuel)
    (done : List (Nat × Instruction)) :
    ReadsAt before [] (instructionsRev linkage fuel done) ws.flatten
      (done.reverse ++ located layout offset placed) := by
  induction h generalizing before fuel done with
  | nil offset =>
    have hnil : done.reverse ++ located layout offset [] = done.reverse := by simp [located, startsFrom]
    rw [hnil]
    cases fuel with
    | zero => exact ReadsAt.pure
    | succ fuel =>
      refine (reads_remaining before _).bindNil ?_
      exact ReadsAt.pure
  | @cons offset i operand rest w ws hemit hrest ih =>
    subst hbefore
    have hlength := length_emit hemit
    have hpos := size_pos operand before.length i
    have hle := le_stopFrom (before.length + size operand before.length i) rest
    rw [stopFrom, ← hlength] at hstop
    rw [← hlength] at hpos hle
    rw [List.flatten_cons, List.length_append] at hfuel
    cases fuel with
    | zero => omega
    | succ fuel =>
      refine (reads_remaining before _).bindNil ?_
      rw [if_neg (by simp only [List.append_nil, List.flatten_cons, List.length_append]; omega)]
      refine (reads_position before _).bindNil ?_
      refine (readsAt_emit hlayout (by omega) (hoperands _ (.head _)) hemit).bind ?_
      have hbefore : (before ++ w).length = before.length + w.length := List.length_append
      have hfuel : ws.flatten.length ≤ fuel := by omega
      have := ih (fun p hp => hoperands p (.tail _ hp)) hbefore hstop hfuel
        ((before.length, i.normalize.mapTargets layout.place) :: done)
      simpa [located, startsFrom, hlength] using this

/-- What is written for instructions is read as their normal forms, with their
    offsets. -/
theorem instructions_emitFrom {placed : Placed} {bytes : Bytes}
    (hlayout : Bytecode.layout placed = .ok layout)
    (hbytes : emitFrom layout [] 0 placed = .ok bytes)
    (hoperands : ∀ p ∈ placed, p.1.OperandLeadsTo linkage p.2) :
    instructions linkage bytes = .ok (located layout 0 placed) := by
  obtain ⟨ws, rfl, hemitted, hascends⟩ := emitted_of_layout hlayout hbytes
  have hread := runOn_of_reads (readsAt_instructions hascends hemitted hoperands
    (List.length_nil : List.length ([] : Bytes) = 0) (ascends_layout hlayout).le
    (Nat.le_refl _) [])
  simp only [instructions, hread]
  rfl

theorem fst_located (placed : Placed) (offset : Nat) :
    (located layout offset placed).map (·.1) = startsFrom offset placed := by
  rw [located, List.map_fst_zip]
  simp

/-- The labels of a layout take the targets of instructions back to labels. -/
theorem resolve_located {placed : Placed} (hascends : layout.Ascends (startsFrom 0 placed) length)
    (htargets : ∀ p ∈ placed, ∀ target ∈ p.1.targets, target < placed.length) :
    (located layout 0 placed).mapM (fun p =>
      p.2.mapTargetsM (LabelMap.ofOffsets (startsFrom 0 placed) length).instruction) =
        .ok (placed.map (·.1.normalize)) := by
  rw [Result.mapM_eq_ok]
  suffices hall : List.Forall₂ (fun i j => Instruction.mapTargetsM
        (LabelMap.ofOffsets (startsFrom 0 placed) length).instruction i = .ok j)
      ((located layout 0 placed).map Prod.snd) (placed.map (·.1.normalize)) from
    List.forall₂_map_left_iff.mp hall
  rw [located, List.map_snd_zip (by simp), List.forall₂_map_left_iff,
    List.forall₂_map_right_iff, List.forall₂_same]
  intro p hp
  refine Instruction.mapTargetsM_mapTargets fun target htarget => hascends.instruction_of_lt ?_
  rw [length_startsFrom]
  exact htargets p hp target (Instruction.mem_targets_normalize.mp htarget)

/-- **What is written for instructions is decoded as their normal forms**, and
    the labels are those of the layout. -/
theorem decode_emitFrom {placed : Placed} {bytes : Bytes}
    (hlayout : Bytecode.layout placed = .ok layout)
    (hbytes : emitFrom layout [] 0 placed = .ok bytes)
    (hoperands : ∀ p ∈ placed, p.1.OperandLeadsTo linkage p.2)
    (htargets : ∀ p ∈ placed, ∀ target ∈ p.1.targets, target < placed.length) :
    ∃ starts, layout.Ascends starts bytes.length ∧ starts.length = placed.length ∧
      decode linkage bytes =
        .ok (placed.map (·.1.normalize), LabelMap.ofOffsets starts bytes.length) := by
  obtain ⟨ws, -, -, hascends⟩ := emitted_of_layout hlayout hbytes
  refine ⟨_, hascends, length_startsFrom 0 placed, ?_⟩
  refine Result.bind_eq_ok.mpr ⟨_, instructions_emitFrom hlayout hbytes hoperands, ?_⟩
  rw [fst_located]
  exact Result.bind_eq_ok.mpr ⟨_, resolve_located hascends htargets, rfl⟩

end

/-- **Instructions that were written are decoded as their normal forms**, in
    every linkage that goes on from there. -/
theorem yields_encode {instructions : List Instruction} (hnests : ∀ i ∈ instructions, i.Nests)
    (htargets : ∀ i ∈ instructions, ∀ target ∈ i.targets, target < instructions.length) :
    Yields (encode instructions) fun linker (written : Bytes × Layout) =>
      ∃ starts, written.2.Ascends starts written.1.length ∧
        starts.length = instructions.length ∧
        decode linker.toLinkage written.1 =
          .ok (instructions.map Instruction.normalize,
            LabelMap.ofOffsets starts written.1.length) := by
  refine (Yields.each fun i hi => yields_operand (hnests i hi)).bind fun operands => ?_
  refine (Yields.ofExcept _).bind fun layout => (Yields.ofExcept _).bind fun bytes => ?_
  refine .pure fun linker _ hbytes hlayout hoperands => ?_
  have hlength := hoperands.length_eq
  have hfst : (instructions.zip operands).map (·.1) = instructions :=
    List.map_fst_zip (by omega)
  have hplaced : (instructions.zip operands).length = instructions.length := by
    rw [← List.length_map (·.1), hfst]
  have hlead : ∀ p ∈ instructions.zip operands, p.1.OperandLeadsTo linker.toLinkage p.2 :=
    fun p hp => (List.forall₂_iff_zip.mp hoperands.flip).2 hp
  obtain ⟨starts, hascends, hstarts, hdecode⟩ := decode_emitFrom hlayout hbytes hlead
    fun p hp => by rw [hplaced]; exact htargets p.1 (List.of_mem_zip hp).1
  refine ⟨starts, hascends, by rw [hstarts, hplaced], ?_⟩
  have hnormalize := congrArg (List.map Instruction.normalize) hfst
  rw [List.map_map] at hnormalize
  rw [hdecode, ← hnormalize]
  rfl

/-! ## Normal forms are written alike -/

theorem sortPairs_sortPairs (pairs : List (Int32 × Label)) :
    sortPairs (sortPairs pairs) = sortPairs pairs := by
  refine List.mergeSort_of_pairwise (List.pairwise_mergeSort ?_ ?_ pairs)
  · intro a b c hab hbc
    simp only [decide_eq_true_eq] at hab hbc ⊢
    exact Int32.le_trans hab hbc
  · intro a b
    simp only [Bool.or_eq_true, decide_eq_true_eq]
    exact Int32.le_total a.1 b.1

theorem operand_normalize (i : Instruction) : operand i.normalize = operand i := by
  cases i with
  | ldc constant => exact Linking.constant_normalize constant
  | invokeDynamic name descriptor bootstrap =>
    simp only [Instruction.normalize, operand, Linking.bootstrapMethod_normalize]
  | _ => rfl

theorem size_normalize (operand : UInt16) (offset : Nat) (i : Instruction) :
    size operand offset i.normalize = size operand offset i := by
  cases i with
  | ldc constant => simp only [Instruction.normalize, size, Constant.isWide_normalize]
  | lookupSwitch default pairs => simp only [Instruction.normalize, size, length_sortPairs]
  | _ => rfl

theorem emit_normalize (layout : Layout) (operand : UInt16) (offset : Nat) (i : Instruction) :
    emit layout operand offset i.normalize = emit layout operand offset i := by
  cases i with
  | ldc constant => simp only [Instruction.normalize, emit, Constant.isWide_normalize]
  | lookupSwitch default pairs =>
    simp only [Instruction.normalize, emit, emitLookupSwitch, sortPairs_sortPairs]
  | _ => rfl

/-- The normal forms of instructions, each with its index. -/
def Placed.normalize (placed : Placed) : Placed := placed.map fun p => (p.1.normalize, p.2)

theorem layoutFrom_normalize (placed : Placed) (done : Array Nat) (offset : Nat) :
    layoutFrom done offset placed.normalize = layoutFrom done offset placed := by
  induction placed generalizing done offset with
  | nil => rfl
  | cons p placed ih =>
    simp only [Placed.normalize, List.map_cons, layoutFrom, size_normalize] at ih ⊢
    simp only [ih]

theorem emitFrom_normalize (layout : Layout) (placed : Placed) (done : List Bytes) (index : Nat) :
    emitFrom layout done index placed.normalize = emitFrom layout done index placed := by
  induction placed generalizing done index with
  | nil => rfl
  | cons p placed ih =>
    simp only [Placed.normalize, List.map_cons, emitFrom, emit_normalize] at ih ⊢
    simp only [ih]

/-- **Instructions and their normal forms are written alike.** -/
theorem encode_normalize (instructions : List Instruction) :
    encode (instructions.map Instruction.normalize) = encode instructions := by
  have hplaced : ∀ operands : List UInt16,
      (instructions.map Instruction.normalize).zip operands =
        Placed.normalize (instructions.zip operands) := by
    intro operands
    rw [Placed.normalize, List.zip_map_left]
    rfl
  simp only [encode, Linking.each_map (fun i _ => operand_normalize i), hplaced, layout,
    layoutFrom_normalize, emitFrom_normalize]

end Bytecode

end JvmClass
