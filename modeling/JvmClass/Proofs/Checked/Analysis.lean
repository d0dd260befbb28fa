/-
  The analysis of a method body, without an index out of range.

  * `Checked.buryRange` replaces the instructions of one range, which has to lie
    inside the body; `Checked.bury_eq`: the unreachable ranges do, and together
    they are what `bury` replaces;
  * `Checked.withFrames` looks out for the labels that frames are computed for;
  * `Checked.analyze_eq`: a body whose labels lie inside it is analysed without
    an index out of range.
-/
import JvmClass.Flow.Analysis
import JvmClass.Proofs.Checked.Worklist
import JvmClass.Proofs.Flow.DeadCode

namespace JvmClass

open JvmClass.Flow

/-! ## Unreachable ranges -/

namespace Flow

variable {ranges : List (Nat × Nat)} {range : Nat × Nat}

/-- What becomes of the instruction at `index` when ranges are buried. -/
def buried (ranges : List (Nat × Nat)) (index : Nat) (instruction : Instruction) : Instruction :=
  if ∃ r ∈ ranges, r.1 ≤ index ∧ index + 1 < r.2 then .simple Opcode.nop
  else if ∃ r ∈ ranges, index + 1 = r.2 then .simple Opcode.athrow
  else instruction

theorem not_inside_of_not_covered {index : Nat} (hnone : ¬ Covered ranges index) :
    ¬ ∃ r ∈ ranges, r.1 ≤ index ∧ index + 1 < r.2 :=
  fun ⟨r, hr, hle, hlt⟩ => hnone ⟨r, hr, hle, Nat.lt_of_succ_lt hlt⟩

/-- A place that no range holds is not the last one of a range either. -/
theorem Disjoint.not_last (h : Disjoint ranges) {index : Nat} (hnone : ¬ Covered ranges index) :
    ¬ ∃ r ∈ ranges, index + 1 = r.2 := by
  rintro ⟨r, hr, hlast⟩
  have := h.proper r hr
  exact hnone ⟨r, hr, by omega, by omega⟩

theorem buried_of_not_covered (h : Disjoint ranges) {index : Nat} (hnone : ¬ Covered ranges index)
    (instruction : Instruction) : buried ranges index instruction = instruction := by
  rw [buried, if_neg (not_inside_of_not_covered hnone), if_neg (h.not_last hnone)]

theorem buried_singleton (range : Nat × Nat) (index : Nat) (instruction : Instruction) :
    buried [range] index instruction =
      if range.1 ≤ index ∧ index + 1 < range.2 then .simple Opcode.nop
      else if index + 1 = range.2 then .simple Opcode.athrow else instruction := by
  simp [buried]

theorem buried_cons (h : Disjoint (range :: ranges)) (index : Nat) (instruction : Instruction) :
    buried ranges index (buried [range] index instruction) =
      buried (range :: ranges) index instruction := by
  obtain ⟨hproper, -, hrest⟩ := h.of_cons
  rw [buried_singleton]
  by_cases hcovered : range.1 ≤ index ∧ index < range.2
  · -- No other range holds the place.
    have hnone := h.apart.not_covered hcovered.2
    rw [buried_of_not_covered hrest hnone, buried]
    simp only [List.exists_mem_cons_iff, not_inside_of_not_covered hnone, hrest.not_last hnone,
      or_false]
  · have hinside : ¬ (range.1 ≤ index ∧ index + 1 < range.2) := by omega
    have hlast : index + 1 ≠ range.2 := by omega
    rw [if_neg hinside, if_neg hlast]
    simp only [buried, List.exists_mem_cons_iff, hinside, hlast, false_or]

theorem bury_eq_mapIdx (reached : Array Bool) (instructions : List Instruction) :
    bury reached instructions = instructions.mapIdx (buried (deadRanges reached.toList)) := by
  have hdisjoint := disjoint_deadRanges reached.toList
  have hcovered {i : Nat} : Covered (deadRanges reached.toList) i ↔ reached[i]? = some false := by
    rw [covered_deadRanges, Array.getElem?_toList]
  unfold bury
  congr 1
  funext index instruction
  split
  next hdead =>
    obtain ⟨r, hr, hle, hlt⟩ := hcovered.mpr hdead
    split
    next hnext =>
      -- The next place lies in the same range, since another one does not begin there.
      obtain ⟨r', hr', hle', hlt'⟩ := hcovered.mpr hnext
      obtain rfl : r = r' := by
        by_contra hne
        rcases hdisjoint.lt_or_gt hr hr' hne with h | h <;> omega
      rw [buried, if_pos ⟨r, hr, hle, hlt'⟩]
    next hnext =>
      have hinside : ¬ ∃ r ∈ deadRanges reached.toList, r.1 ≤ index ∧ index + 1 < r.2 := by
        rintro ⟨r, hr, hle, hlt⟩
        exact hnext (hcovered.mp ⟨r, hr, by omega, hlt⟩)
      have hlast : index + 1 = r.2 :=
        Nat.le_antisymm hlt (Nat.not_lt.mp fun h => hinside ⟨r, hr, hle, h⟩)
      rw [buried, if_neg hinside, if_pos ⟨r, hr, hlast⟩]
  next hlive => rw [buried_of_not_covered hdisjoint (fun h => hlive (hcovered.mp h))]

end Flow

namespace Checked

/-- The instructions with those of a range replaced by `nop`s that end in an
    `athrow`. -/
def buryRange (instructions : List Instruction) (range : Nat × Nat) :
    Checked Invalid (List Instruction) := do
  let (start, stop) := range
  require (1 ≤ stop ∧ start ≤ stop - 1 ∧ stop - 1 < instructions.length)
  return (instructions.mapIdx fun index instruction =>
    if start ≤ index ∧ index < stop - 1 then .simple Opcode.nop else instruction).set (stop - 1)
      (.simple Opcode.athrow)

theorem buryRange_eq {instructions : List Instruction} {range : Nat × Nat} (hproper : range.1 < range.2)
    (hinside : range.2 ≤ instructions.length) :
    buryRange instructions range = pure (instructions.mapIdx (buried [range])) := by
  obtain ⟨start, stop⟩ := range
  dsimp only at hproper hinside
  rw [buryRange, require_of (by omega), pure_bind]
  congr 1
  refine List.ext_getElem? fun index => ?_
  rw [List.getElem?_set, List.getElem?_mapIdx, List.getElem?_mapIdx, List.length_mapIdx]
  by_cases hlast : stop - 1 = index
  · subst hlast
    have hlt : stop - 1 < instructions.length := by omega
    have hend : ¬ (start ≤ stop - 1 ∧ stop - 1 + 1 < stop) := by omega
    have hstop : stop - 1 + 1 = stop := by omega
    rw [if_pos rfl, if_pos hlt, List.getElem?_eq_getElem hlt, Option.map_some, buried_singleton,
      if_neg hend, if_pos hstop]
  · have hinside : index < stop - 1 ↔ index + 1 < stop := by omega
    have hstop : index + 1 ≠ stop := by omega
    rw [if_neg hlast]
    congr 1
    funext instruction
    simp only [buried_singleton, hinside, if_neg hstop]

theorem foldlM_buryRange {ranges : List (Nat × Nat)} (h : Disjoint ranges)
    {instructions : List Instruction} (hinside : ∀ r ∈ ranges, r.2 ≤ instructions.length) :
    ranges.foldlM buryRange instructions = pure (instructions.mapIdx (buried ranges)) := by
  induction ranges generalizing instructions with
  | nil =>
    have hnone (index : Nat) : buried [] index = id :=
      funext fun instruction => buried_of_not_covered h (fun ⟨_, hr, _⟩ => nomatch hr) instruction
    have hsame : instructions.mapIdx (buried []) = instructions :=
      List.mapIdx_eq_iff.mpr fun index => by rw [hnone, Option.map_id_fun, id]
    rw [List.foldlM_nil, hsame]
  | cons range ranges ih =>
    obtain ⟨hfirst, hrest⟩ := List.forall_mem_cons.mp hinside
    obtain ⟨hproper, -, hdisjoint⟩ := h.of_cons
    rw [List.foldlM_cons, buryRange_eq hproper hfirst, pure_bind,
      ih hdisjoint (by simpa using hrest), List.mapIdx_mapIdx]
    congr 2
    funext index instruction
    exact buried_cons h index instruction

/-- **The unreachable ranges lie inside the body.** -/
theorem bury_eq {reached : Array Bool} {instructions : List Instruction}
    (h : reached.size = instructions.length) :
    (deadRanges reached.toList).foldlM buryRange instructions = pure (bury reached instructions) := by
  have hinside : ∀ r ∈ deadRanges reached.toList, r.2 ≤ instructions.length := fun r hr =>
    h ▸ le_of_mem_deadRanges hr
  rw [foldlM_buryRange (disjoint_deadRanges _) hinside, ← bury_eq_mapIdx]

/-! ## Analyses -/

/-- The result of a finished interpretation with frames. -/
def withFrames (code : Code) (run : Run) : Checked Invalid (Nat × Analysis) := do
  -- The entry of every instruction is looked at.
  require (code.instructions.length ≤ run.entries.size)
  let reached := run.entries.map Option.isSome
  let dead := deadRanges reached.toList
  let instructions ← dead.foldlM buryRange code.instructions
  let table := removeRanges code.exceptionTable dead
  let labels := frameLabels reached code table dead
  require (∀ label ∈ labels, label < run.entries.size)
  return (if dead.isEmpty then run.maxStack else max run.maxStack 1,
    ⟨0, 0, some (framesAt run.entries dead labels), instructions, table⟩)

/-- Analyse a method body. -/
def analyzeBody (hierarchy : Hierarchy) (owner : String) (method : MethodRecord) (code : Code)
    (computeFrames : Bool) : Checked Invalid Analysis := do
  let initial ← ofExcept ((initialLocals owner method.access method.name
    method.descriptor).mapError .badDescriptor)
  let locals := maxLocals ((initial.map VerificationType.size).foldr (· + ·) 0) code.instructions
  if locals > 0xFFFF then throw (.localSlots locals)
  let isSubroutine (i : Instruction) : Bool :=
    i.opcode == Opcode.jsr || i.opcode == Opcode.jsrW || i.opcode == Opcode.ret
  if computeFrames && code.instructions.any isSubroutine then throw .subroutine
  let (maxStack, analysis) ←
    if code.instructions.isEmpty then
      pure (0, (⟨0, 0, if computeFrames then some [] else none, [], code.exceptionTable⟩ : Analysis))
    else
      let run ← interpret (bodyOf hierarchy owner code computeFrames)
        ⟨initialSlots locals initial, [], !computeFrames⟩
      if computeFrames then withFrames code run
      else pure (run.maxStack, ⟨0, 0, none, code.instructions, code.exceptionTable⟩)
  if maxStack > 0xFFFF then throw (.stackSlots maxStack)
  return { analysis with
    maxStack := UInt16.ofNat maxStack
    maxLocals := UInt16.ofNat locals }

/-- Analyse the body of a method of the class `owner`. -/
def analyze (hierarchy : Hierarchy) (owner : String) (method : MethodRecord) (code : Code)
    (computeFrames : Bool) : Checked Invalid Analysis :=
  ExceptT.adapt (.inMethod method.name method.descriptor)
    (analyzeBody hierarchy owner method code computeFrames)

theorem withFrames_eq {code : Code} (hlabels : LabelsInRange code) {run : Run}
    (hsize : run.entries.size = code.instructions.length) :
    withFrames code run = pure (Flow.withFrames code run) := by
  have hreached : (run.entries.map Option.isSome).size = code.instructions.length := by
    rw [Array.size_map, hsize]
  unfold withFrames
  rw [require_of (Nat.le_of_eq hsize.symm), pure_bind]
  dsimp only
  rw [bury_eq hreached, pure_bind, require_of ?_, pure_bind]
  · rfl
  · intro label hlabel
    rw [hsize]
    rcases List.mem_append.mp hlabel with hlabel | hhandler
    · rcases List.mem_append.mp hlabel with htarget | hdead
      · obtain ⟨⟨i, _⟩, hi, htarget⟩ := List.mem_flatMap.mp htarget
        have hmem := List.fst_mem_of_mem_zipIdx (List.mem_filter.mp hi).1
        exact hlabels.targets i hmem label htarget
      · obtain ⟨r, hr, rfl⟩ := List.mem_map.mp hdead
        have hproper := (disjoint_deadRanges _).proper r hr
        have hle := le_of_mem_deadRanges hr
        rw [Array.length_toList, hreached] at hle
        exact Nat.lt_of_lt_of_le hproper hle
    · obtain ⟨piece, hpiece, rfl⟩ := List.mem_map.mp hhandler
      rcases mem_removeRanges hpiece with hkept | ⟨handler, hmem, -, -, hhandler, -⟩
      · exact (hlabels.handlers piece hkept).2
      · exact hhandler ▸ (hlabels.handlers handler hmem).2

theorem analyzeBody_eq {hierarchy : Hierarchy} {owner : String} {method : MethodRecord} {code : Code}
    (hlabels : LabelsInRange code) (computeFrames : Bool) :
    analyzeBody hierarchy owner method code computeFrames =
      ofExcept (Flow.analyzeBody hierarchy owner method code computeFrames) := by
  refine bind_ofExcept fun initial _ => ?_
  dsimp only
  refine guard_ofExcept (guard_ofExcept ?_)
  split
  next =>
    rw [pure_bind, pure_bind]
    exact guard_ofExcept rfl
  next hempty =>
    have hclosed : (bodyOf hierarchy owner code computeFrames).Closed := hlabels.closed
    have hpos : 0 < code.instructions.toArray.size := by
      simpa [List.length_pos_iff] using hempty
    rw [interpret_eq hclosed hpos]
    refine bind_ofExcept fun run hrun => ?_
    have hsize := (Run.Inside.of_run hclosed hpos hrun).entries
    split
    next =>
      rw [withFrames_eq hlabels hsize, pure_bind, pure_bind]
      exact guard_ofExcept rfl
    next =>
      rw [pure_bind, pure_bind]
      exact guard_ofExcept rfl

/-- **A body whose labels lie inside it is analysed without an index out of
    range.** -/
theorem analyze_eq {hierarchy : Hierarchy} {owner : String} {method : MethodRecord} {code : Code}
    (hlabels : LabelsInRange code) (computeFrames : Bool) :
    analyze hierarchy owner method code computeFrames =
      ofExcept (JvmClass.analyze hierarchy owner method code computeFrames) := by
  rw [analyze, analyzeBody_eq hlabels, JvmClass.analyze]
  cases Flow.analyzeBody hierarchy owner method code computeFrames <;> rfl

end Checked

end JvmClass
