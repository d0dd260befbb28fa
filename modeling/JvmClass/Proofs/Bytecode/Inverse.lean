/-
  Laying out bytecode and reading it are inverse.

  * `Bytecode.LaidOut`: the offsets of a layout are those of instructions in
    written code, from its start to its end, and each instruction is written at
    its place with the size that it has there; `laidOut_of_emitFrom` says so of
    what is written;
  * `encode_inverse`: written code is laid out, and read as the same instructions
    at these offsets, wherever their indices stand for the same operands.
-/
import JvmClass.Proofs.Bytecode.Listing
import JvmClass.Proofs.Bytecode.Normal

namespace JvmClass.Bytecode

open Reader

variable {layout : Layout} {placed : Placed}

/-! ## Places -/

theorem getElem?_zero_startsFrom (offset : Nat) (placed : Placed) :
    (startsFrom offset placed ++ [stopFrom offset placed])[0]? = some offset := by
  cases placed <;> rfl

/-- An instruction is written between those before and those after it, and what
    is laid out next starts behind it. -/
theorem Emitted.split {offset : Nat} {ws : List Bytes} (h : Emitted layout offset placed ws)
    {k : Nat} {p : Instruction × UInt16} (hk : placed[k]? = some p) :
    ∃ before w after, ws.flatten = before ++ w ++ after ∧
      emit layout p.2 (offset + before.length) p.1 = .ok w ∧
      (startsFrom offset placed ++ [stopFrom offset placed])[k]? =
        some (offset + before.length) ∧
      (startsFrom offset placed ++ [stopFrom offset placed])[k + 1]? =
        some (offset + before.length + w.length) := by
  -- Each instruction moves the offset by the length of its bytes.
  induction h generalizing k with
  | nil => exact nomatch hk
  | @cons offset i operand rest w ws hemit hrest ih =>
    have hsize : size operand offset i = w.length := (length_emit hemit).symm
    cases k with
    | zero =>
      cases hk
      refine ⟨[], w, ws.flatten, rfl, hemit, getElem?_zero_startsFrom offset _, ?_⟩
      simp only [startsFrom, stopFrom, hsize, List.cons_append, List.getElem?_cons_succ]
      exact getElem?_zero_startsFrom _ rest
    | succ k =>
      obtain ⟨before, v, after, hflat, hv, hplace, hnext⟩ := ih hk
      refine ⟨w ++ before, v, after, ?_, ?_, ?_, ?_⟩
      · rw [List.flatten_cons, hflat, List.append_assoc, List.append_assoc, List.append_assoc]
      · rw [List.length_append, ← Nat.add_assoc]
        exact hv
      · rw [List.length_append, ← Nat.add_assoc, ← hplace, startsFrom, stopFrom, hsize]
        rfl
      · rw [List.length_append, ← Nat.add_assoc, ← hnext, startsFrom, stopFrom, hsize]
        rfl

/-- The offsets of a layout are those of instructions in the code `out`, from its
    start to its end, and each instruction is written at its place. -/
structure LaidOut (layout : Layout) (placed : Placed) (out : Bytes) : Prop where
  size_eq : layout.offsets.size = placed.length + 1
  first : layout.offsets[0]? = some 0
  ascending : layout.offsets.toList.Pairwise (· < ·)
  last : layout.offsets[placed.length]? = some out.length
  le : out.length ≤ 0xFFFF
  written : ∀ (k : Nat) (i : Instruction) (operand : UInt16), placed[k]? = some (i, operand) →
    ∃ before w after, out = before ++ w ++ after ∧ layout.offsets[k]? = some before.length ∧
      emit layout operand before.length i = .ok w ∧
      w.length = size operand before.length i ∧
      layout.offsets[k + 1]? = some (before.length + w.length)

/-- **Written code is laid out as computed before.** -/
theorem laidOut_of_emitFrom {out : Bytes} (hlayout : Bytecode.layout placed = .ok layout)
    (hbytes : emitFrom layout [] 0 placed = .ok out) : LaidOut layout placed out := by
  obtain ⟨ws, rfl, hemitted, hascends⟩ := emitted_of_layout hlayout hbytes
  have hstop : stopFrom 0 placed = ws.flatten.length := by
    rw [← hemitted.length, Nat.zero_add]
  have hlength := length_startsFrom 0 placed
  refine ⟨?_, ?_, ?_, ?_, hascends.le, fun k i operand hk => ?_⟩
  · rw [← Array.length_toList, hascends.toList, List.length_append, hlength, List.length_singleton]
  · rw [hascends.getElem?, ← hstop]
    exact getElem?_zero_startsFrom 0 placed
  · rw [hascends.toList]
    exact hascends.ascending
  · rw [hascends.getElem?, ← hlength, List.getElem?_append_right (Nat.le_refl _), Nat.sub_self]
    rfl
  · obtain ⟨before, w, after, hflat, hemit, hplace, hnext⟩ := hemitted.split hk
    rw [hstop, Nat.zero_add] at hplace hnext
    rw [Nat.zero_add] at hemit
    refine ⟨before, w, after, hflat, ?_, hemit, length_emit hemit, ?_⟩
    · rw [hascends.getElem?, hplace]
    · rw [hascends.getElem?, hnext]

/-! ## Reading what was written -/

/-- **Bytecode is laid out and read inversely.**  What is written for
    instructions is laid out, each at its place and with its size.  It is read at
    the same offsets as the same instructions, once offsets are taken to labels,
    with every linkage where the indices of the operands stand for them, if the
    targets are in the list, the keys of each `lookupswitch` ascend and no handle
    of a field is one of an interface.  Such a linkage is the one under
    construction, and each that goes on from there, if constants do not nest too
    deep. -/
theorem encode_inverse {instructions : List Instruction} {linker next : Linker} {out : Bytes}
    (h : encode instructions linker = .ok (out, layout) next) :
    ∃ operands, Linking.each operand instructions linker = .ok operands next ∧
      operands.length = instructions.length ∧
      LaidOut layout (instructions.zip operands) out ∧
      (∀ linkage : Linkage,
        (∀ i ∈ instructions, ∀ target ∈ i.targets, target < instructions.length) →
        (∀ i ∈ instructions, i.Normal) →
        List.Forall₂ (fun i operand => i.OperandLeadsTo linkage operand) instructions operands →
        ∃ located, Bytecode.instructions linkage out = .ok located ∧
          located.map (·.1) = layout.offsets.toList.take instructions.length ∧
          located.mapM (fun p =>
            p.2.mapTargetsM (LabelMap.ofOffsets (located.map (·.1)) out.length).instruction) =
              .ok instructions) ∧
      (linker.Valid → (∀ i ∈ instructions, i.Nests) →
        ∀ final : Linker, final.Valid → Growing.Extends next final →
          List.Forall₂ (fun i operand => i.OperandLeadsTo final.toLinkage operand)
            instructions operands) := by
  obtain ⟨operands, hoperands, hlayout, hout⟩ := encode_eq_ok.mp h
  have hcount := Linking.length_of_each hoperands
  have hfst : (instructions.zip operands).map (·.1) = instructions :=
    List.map_fst_zip (by omega)
  have hlength : (instructions.zip operands).length = instructions.length := by
    rw [← List.length_map (·.1), hfst]
  refine ⟨operands, hoperands, hcount, laidOut_of_emitFrom hlayout hout, ?_, ?_⟩
  · intro linkage htargets hnormal hleads
    obtain ⟨ws, -, -, hascends⟩ := emitted_of_layout hlayout hout
    have htargets' : ∀ p ∈ instructions.zip operands, ∀ target ∈ p.1.targets,
        target < (instructions.zip operands).length := fun p hp target htarget => by
      rw [hlength]
      exact htargets p.1 (List.of_mem_zip hp).1 target htarget
    have hleads' : ∀ p ∈ instructions.zip operands, p.1.OperandLeadsTo linkage p.2 :=
      fun p hp => (List.forall₂_iff_zip.mp hleads).2 hp
    have hnormalize : (instructions.zip operands).map (·.1.normalize) = instructions := by
      refine (List.map_congr_left fun p hp => ?_).trans hfst
      exact (hnormal p.1 (List.of_mem_zip hp).1).normalize_eq
    refine ⟨_, instructions_emitFrom hlayout hout hleads', ?_, ?_⟩
    · rw [fst_located, hascends.toList, List.take_left' (by rw [length_startsFrom, hlength])]
    · rw [fst_located, resolve_located hascends htargets', hnormalize]
  · intro hlinker hnests final hfinal hle
    obtain ⟨-, -, hyields⟩ := Yields.each (fun i hi => yields_operand (hnests i hi))
      linker operands next hlinker hoperands
    exact (hyields final hfinal hle).flip

/-- A constant, a local past those of one byte, and a switch that jumps both
    ways. -/
theorem encode_inverse_switch :
    let instructions : List Instruction :=
      [.ldc (.string "A"), .iinc 300 1, .lookupSwitch 0 [(-1, 0), (7, 3)], .simple Opcode.returnVoid]
    let out : Bytes := [0x12, 2, 0xc4, 0x84, 1, 44, 0, 1, 0xab, 0, 0, 0, 0xff, 0xff, 0xff, 0xf8,
      0, 0, 0, 2, 0xff, 0xff, 0xff, 0xff, 0xff, 0xff, 0xff, 0xf8, 0, 0, 0, 7, 0, 0, 0, 28, 0xb1]
    ∃ next located, encode instructions .empty = .ok (out, ⟨#[0, 2, 8, 36, 37]⟩) next ∧
      Bytecode.instructions next.toLinkage out = .ok located ∧
      located.map (·.1) = [0, 2, 8, 36] ∧
      located.mapM (fun p =>
        p.2.mapTargetsM (LabelMap.ofOffsets (located.map (·.1)) out.length).instruction) =
          .ok instructions := by
  intro instructions out
  have hsorted : sortPairs [(-1, 0), (7, 3)] = [(-1, 0), (7, 3)] :=
    List.mergeSort_of_pairwise (by decide)
  have hout : emitFrom ⟨#[0, 2, 8, 36, 37]⟩ [] 0 (instructions.zip [2, 0, 0, 0]) = .ok out := by
    simp only [instructions, List.zip, List.zipWith, emitFrom, emit, emitLookupSwitch, hsorted]
    rfl
  obtain ⟨next, hoperands⟩ : ∃ next,
      Linking.each operand instructions .empty = .ok [2, 0, 0, 0] next := by
    simp [instructions, Linking.each, Linking.eachRev, operand, Linking.constant,
      Pool.Intern.string, Pool.Intern.utf8, Pool.add_mk, Pool.Entry.slots, Pool.Entry.isWide,
      Pool.Builder.maxSlots, Pool.Builder.empty, Linker.empty, liftM, monadLift,
      MonadLift.monadLift, Linking.ofInterning, Bind.bind, EStateM.bind, Pure.pure, EStateM.pure]
  have hencode : encode instructions .empty = .ok (out, ⟨#[0, 2, 8, 36, 37]⟩) next :=
    encode_eq_ok.mpr ⟨_, hoperands, rfl, hout⟩
  have htargets : ∀ i ∈ instructions, ∀ target ∈ i.targets, target < instructions.length := by
    decide
  have hnormal : ∀ i ∈ instructions, i.Normal := by
    simp only [instructions, List.forall_mem_cons, Instruction.Normal]
    exact ⟨List.forall_mem_nil _, trivial, by decide, trivial, List.forall_mem_nil _⟩
  have hnests : ∀ i ∈ instructions, i.Nests := by
    simp only [instructions, List.forall_mem_cons, Instruction.Nests]
    exact ⟨Nat.zero_le _, trivial, trivial, trivial, List.forall_mem_nil _⟩
  have hnext : next.Valid :=
    (Yields.each (fun i hi => yields_operand (hnests i hi)) .empty _ next Linker.valid_empty
      hoperands).1
  obtain ⟨operands, -, -, -, hread, hleads⟩ := encode_inverse hencode
  obtain ⟨located, hlocated, hstarts, hresolved⟩ := hread next.toLinkage htargets hnormal
    (hleads Linker.valid_empty hnests next hnext (Growing.refl next))
  exact ⟨next, located, hencode, hlocated, hstarts, hresolved⟩

end JvmClass.Bytecode
