/-
  Where the entries of an exception table go.

  * `Flow.runStarts` are the places at which runs of live places begin in a
    range; `length_cut`: taking dead ranges out of an entry leaves a piece for
    each run;
  * `Flow.pieces` is the number of pieces of an entry, that of the runs of
    reachable instructions in its range, and `Flow.piecesBefore` the place of the
    first one in the exception table that is written;
  * `Explored.catches_iff`: where in that table an entry is found again;
  * `catches_prepare`: annotations keep the place that they refer to, and what is
    found there is alike exactly if a piece of the entry or of one of its likes
    comes to lie there.
-/
import JvmClass.Proofs.Body.Prepare
import JvmClass.Proofs.Flow.Placement
import Mathlib.Algebra.GroupWithZero.Nat
import Mathlib.Order.Interval.Finset.Nat

namespace JvmClass

namespace Flow

/-! ## Runs of live places -/

open scoped Classical in
/-- The live places from `start` to `stop` in front of which there is none. -/
noncomputable def runStarts (live : Nat → Prop) (start stop : Nat) : Finset Nat :=
  {i ∈ Finset.Ico start stop | live i ∧ (i = start ∨ ¬ live (i - 1))}

section
variable {live live' : Nat → Prop} {start stop : Nat}

theorem mem_runStarts {i : Nat} :
    i ∈ runStarts live start stop ↔
      (start ≤ i ∧ i < stop) ∧ live i ∧ (i = start ∨ ¬ live (i - 1)) := by
  simp only [runStarts, Finset.mem_filter, Finset.mem_Ico]

theorem runStarts_eq_empty (h : stop ≤ start) : runStarts live start stop = ∅ := by
  refine Finset.eq_empty_iff_forall_notMem.mpr fun i hi => ?_
  obtain ⟨⟨hle, hlt⟩, -⟩ := mem_runStarts.mp hi
  omega

theorem runStarts_congr (h : ∀ i, start ≤ i → i < stop → (live i ↔ live' i)) :
    runStarts live start stop = runStarts live' start stop := by
  ext i
  rw [mem_runStarts, mem_runStarts]
  refine and_congr_right fun ⟨hle, hlt⟩ => ?_
  rw [h i hle hlt]
  refine and_congr_right fun _ => ?_
  by_cases heq : i = start
  · simp only [heq, true_or]
  · rw [h (i - 1) (by omega) (by omega)]

theorem runStarts_nonempty {i : Nat} (hle : start ≤ i) (hlt : i < stop) (hi : live i) :
    (runStarts live start stop).Nonempty := by
  induction i with
  | zero => exact ⟨0, mem_runStarts.mpr ⟨⟨hle, hlt⟩, hi, .inl (Nat.le_zero.mp hle).symm⟩⟩
  | succ i ih =>
    by_cases hstart : i + 1 = start
    · exact ⟨i + 1, mem_runStarts.mpr ⟨⟨hle, hlt⟩, hi, .inl hstart⟩⟩
    by_cases hbefore : live i
    · exact ih (by omega) (by omega) hbefore
    · exact ⟨i + 1, mem_runStarts.mpr ⟨⟨hle, hlt⟩, hi, .inr hbefore⟩⟩

/-- There is one run if live places come first, and none if there are none. -/
theorem card_runStarts_front {stop' : Nat} (hle : stop' ≤ stop)
    (hlive : ∀ i, start ≤ i → i < stop' → live i) (hdead : ∀ i, stop' ≤ i → i < stop → ¬ live i) :
    (runStarts live start stop).card = if start < stop' then 1 else 0 := by
  split
  next hlt =>
    rw [Finset.card_eq_one]
    refine ⟨start, Finset.ext fun i => ?_⟩
    rw [mem_runStarts, Finset.mem_singleton]
    constructor
    · rintro ⟨⟨hstart, hstop⟩, hi, heq | hbefore⟩
      · exact heq
      · by_contra hne
        have hinside : i < stop' := Nat.not_le.mp fun h => hdead i h hstop hi
        exact hbefore (hlive (i - 1) (by omega) (by omega))
    · rintro rfl
      exact ⟨⟨Nat.le_refl _, Nat.lt_of_lt_of_le hlt hle⟩, hlive i (Nat.le_refl _) hlt, .inl rfl⟩
  next hnone =>
    rw [Finset.card_eq_zero, Finset.eq_empty_iff_forall_notMem]
    intro i hi
    obtain ⟨⟨hstart, hstop⟩, hi, -⟩ := mem_runStarts.mp hi
    exact hdead i (by omega) hstop hi

theorem card_runStarts_split {middle : Nat} (hstart : start < middle) (hstop : middle ≤ stop)
    (hdead : ¬ live (middle - 1)) :
    (runStarts live start stop).card =
      (runStarts live start middle).card + (runStarts live middle stop).card := by
  rw [← Finset.card_union_of_disjoint]
  · congr 1
    ext i
    rw [Finset.mem_union, mem_runStarts, mem_runStarts, mem_runStarts]
    rcases Nat.lt_trichotomy i middle with hlt | rfl | hgt
    · have hne : ¬ middle ≤ i := Nat.not_le.mpr hlt
      have hlt' : i < stop := Nat.lt_of_lt_of_le hlt hstop
      simp only [hlt, hlt', hne, false_and, and_true, or_false]
    · simp only [Nat.lt_irrefl, Nat.le_refl, Nat.le_of_lt hstart, hdead, true_and, and_false,
        false_and, false_or, or_true, not_false_eq_true, and_true]
    · have hlt : ¬ i < middle := Nat.not_lt.mpr (Nat.le_of_lt hgt)
      have hne : i ≠ middle := Nat.ne_of_gt hgt
      have hne' : i ≠ start := by omega
      have hle : middle ≤ i := Nat.le_of_lt hgt
      have hle' : start ≤ i := by omega
      simp only [hlt, hne, hne', hle, hle', true_and, and_false, false_and, false_or]
  · rw [Finset.disjoint_left]
    intro i hfront hback
    have hlt := (mem_runStarts.mp hfront).1.2
    have hle := (mem_runStarts.mp hback).1.1
    omega

end

/-- **Taking ranges out of an exception table entry leaves a piece for each run
    of places that are in none of them.** -/
theorem length_cut {handler : ExceptionHandler} {start : Nat} {ranges : List (Nat × Nat)}
    (h : Disjoint ranges) :
    (cut handler start ranges).length =
      (runStarts (fun i => ¬ Covered ranges i) start handler.stop).card := by
  induction ranges generalizing start with
  | nil =>
    have hlive : ∀ i, ¬ Covered [] i := fun i => by simp [Covered]
    rw [cut, card_runStarts_front (Nat.le_refl _) (fun i _ _ => hlive i) fun i hle hlt => by omega]
    split <;> rfl
  | cons range ranges ih =>
    have hclear := fun i => h.apart.not_covered (i := i)
    obtain ⟨hproper, hbehind, hrest⟩ := h.of_cons
    obtain ⟨first, last⟩ := range
    dsimp only at hproper hclear hbehind
    rw [cut]
    by_cases hapart : last ≤ start ∨ first ≥ handler.stop
    · rw [if_pos hapart, ih hrest]
      congr 1
      refine runStarts_congr fun i hle hlt => not_congr ?_
      rw [covered_cons]
      exact ⟨.inr, fun h => h.resolve_left fun hinside => by omega⟩
    rw [if_neg hapart, List.length_append, ih hrest]
    by_cases hempty : start ≥ handler.stop
    · rw [if_neg (by omega), runStarts_eq_empty (by omega), runStarts_eq_empty hempty]
      rfl
    · -- What lies in front of the end of the range is one run and what the range covers.
      have hcovered (i : Nat) (hle : first ≤ i) (hlt : i < last) :
          ¬ ¬ Covered ((first, last) :: ranges) i :=
        not_not.mpr (covered_cons.mpr (.inl ⟨hle, hlt⟩))
      have hfree (i : Nat) (hlt : i < first) : ¬ Covered ((first, last) :: ranges) i := by
        rw [covered_cons]
        rintro (hinside | hbehind)
        · omega
        · exact hclear i (by omega) hbehind
      rw [card_runStarts_split (by omega : start < min last handler.stop) (by omega)
        (hcovered _ (by omega) (by omega)),
        card_runStarts_front (by omega : first ≤ min last handler.stop) (fun i _ hlt => hfree i hlt)
          fun i hle hlt => hcovered i hle (by omega)]
      congr 1
      · split <;> rfl
      · congr 1
        refine runStarts_congr fun i hle hlt => not_congr ?_
        rw [covered_cons]
        exact ⟨.inr, fun h => h.resolve_left fun hinside => by omega⟩

/-! ## The pieces of an exception table -/

/-- Where the items come from that lists made of other items are put together
    from. -/
theorem getElem?_flatMap {α β : Type} {f : α → List β} {items : List α} {i : Nat} {b : β} :
    (items.flatMap f)[i]? = some b ↔
      ∃ j a k, items[j]? = some a ∧ (f a)[k]? = some b ∧
        i = ((items.take j).map fun a => (f a).length).sum + k := by
  induction items generalizing i with
  | nil => simp
  | cons item items ih =>
    rw [List.flatMap_cons, List.getElem?_append]
    constructor
    · intro h
      split at h
      next => exact ⟨0, item, i, rfl, h, by simp⟩
      next hge =>
        obtain ⟨j, a, k, ha, hk, heq⟩ := ih.mp h
        refine ⟨j + 1, a, k, ha, hk, ?_⟩
        rw [List.take_succ_cons, List.map_cons, List.sum_cons]
        omega
    · rintro ⟨j, a, k, ha, hk, rfl⟩
      cases j with
      | zero =>
        cases ha
        have hlt : k < (f item).length := (List.getElem?_eq_some_iff.mp hk).1
        simpa [hlt] using hk
      | succ j =>
        rw [List.take_succ_cons, List.map_cons, List.sum_cons, if_neg (by omega)]
        exact ih.mpr ⟨j, a, k, ha, hk, by omega⟩

/-- How many pieces are left of an exception table entry: one for each run of
    reachable instructions in its range. -/
noncomputable def pieces (code : Code) (handler : ExceptionHandler) : Nat :=
  (runStarts (Reachable code) handler.start handler.stop).card

/-- How many pieces are left of the first `count` entries of the exception
    table. -/
noncomputable def piecesBefore (code : Code) (count : Nat) : Nat :=
  ((code.exceptionTable.take count).map (pieces code)).sum

theorem piecesBefore_succ {code : Code} {j : Nat} {handler : ExceptionHandler}
    (h : code.exceptionTable[j]? = some handler) :
    piecesBefore code (j + 1) = piecesBefore code j + pieces code handler := by
  rw [piecesBefore, List.take_add_one, h, Option.toList_some, List.map_append, List.sum_append,
    List.map_singleton, List.sum_singleton]
  rfl

/-- An entry leaves a piece if it covers a reachable instruction. -/
theorem pieces_pos {code : Code} {handler : ExceptionHandler} {i : Label} (hi : Reachable code i)
    (hstart : handler.start ≤ i) (hstop : i < handler.stop) : 0 < pieces code handler :=
  Finset.card_pos.mpr (runStarts_nonempty hstart hstop hi)

/-- The entry at `index` of an exception table catches what `handler` does, with
    the same handler. -/
def Catches (table : List ExceptionHandler) (index : Nat) (handler : ExceptionHandler) : Prop :=
  ∃ entry, table[index]? = some entry ∧ entry.handler = handler.handler ∧
    entry.catchType = handler.catchType

theorem removeRanges_eq_flatMap {table : List ExceptionHandler} (ranges : List (Nat × Nat))
    (h : ∀ handler ∈ table, handler.start < handler.stop) :
    removeRanges table ranges = table.flatMap fun handler => cut handler handler.start ranges := by
  unfold removeRanges
  split
  next hnone =>
    have hsame : table.flatMap (fun handler => cut handler handler.start ranges) =
        table.flatMap ([·]) := by
      refine List.flatMap_congr fun handler hmem => ?_
      rw [List.isEmpty_iff.mp hnone, cut, if_pos (h handler hmem)]
    rw [hsame, List.flatMap_singleton']
  next => rfl

section
variable {code : Code} {run : Run}

/-- **The pieces of an entry are the runs of reachable instructions in it.** -/
theorem Explored.length_cut (h : Explored code run) {handler : ExceptionHandler}
    (hstop : handler.stop ≤ code.stop) :
    (cut handler handler.start (deadOf run)).length = pieces code handler := by
  have hdisjoint : Disjoint (deadOf run) := disjoint_deadRanges _
  rw [Flow.length_cut hdisjoint, pieces]
  congr 1
  refine runStarts_congr fun i _ hlt => ?_
  rw [h.covered_deadOf, not_and_not_right]
  exact ⟨fun himp => himp (Nat.lt_of_lt_of_le hlt hstop), fun hi _ => hi⟩

/-- **Where an entry is found again** when unreachable code was taken out of the
    exception table: among its pieces and those of its likes. -/
theorem Explored.catches_iff (h : Explored code run) (hinside : JvmClass.Body.LabelsInside code)
    {index : Nat} {entry : ExceptionHandler} :
    Catches (removeRanges code.exceptionTable (deadOf run)) index entry ↔
      ∃ j, Catches code.exceptionTable j entry ∧ piecesBefore code j ≤ index ∧
        index < piecesBefore code (j + 1) := by
  have hlength {handler : ExceptionHandler} (hmem : handler ∈ code.exceptionTable) :
      (cut handler handler.start (deadOf run)).length = pieces code handler :=
    h.length_cut (hinside.handlers handler hmem).2.1
  have hbefore (j : Nat) : ((code.exceptionTable.take j).map fun handler =>
      (cut handler handler.start (deadOf run)).length).sum = piecesBefore code j := by
    rw [piecesBefore, List.map_congr_left fun handler hmem => hlength (List.mem_of_mem_take hmem)]
  rw [removeRanges_eq_flatMap _ fun handler hmem => (hinside.handlers handler hmem).1]
  constructor
  · rintro ⟨piece, hpiece, hhandler, htype⟩
    obtain ⟨j, other, k, hother, hk, rfl⟩ := getElem?_flatMap.mp hpiece
    obtain ⟨-, -, hsame, hsame'⟩ := mem_cut (List.mem_of_getElem? hk)
    have hlt := (List.getElem?_eq_some_iff.mp hk).1
    rw [hlength (List.mem_of_getElem? hother)] at hlt
    refine ⟨j, ⟨other, hother, hsame.symm.trans hhandler, hsame'.symm.trans htype⟩, ?_, ?_⟩
    · rw [hbefore]
      exact Nat.le_add_right ..
    · rw [hbefore, piecesBefore_succ hother]
      exact Nat.add_lt_add_left hlt _
  · rintro ⟨j, ⟨other, hother, hhandler, htype⟩, hle, hlt⟩
    rw [piecesBefore_succ hother, ← hlength (List.mem_of_getElem? hother)] at hlt
    obtain ⟨k, rfl⟩ := Nat.exists_eq_add_of_le hle
    have hk : k < (cut other other.start (deadOf run)).length := Nat.lt_of_add_lt_add_left hlt
    obtain ⟨-, -, hsame, hsame'⟩ := mem_cut (List.getElem_mem hk)
    refine ⟨_, getElem?_flatMap.mpr ⟨j, other, k, hother, List.getElem?_eq_getElem hk, ?_⟩,
      hsame.trans hhandler, hsame'.trans htype⟩
    rw [hbefore]

end

end Flow

open JvmClass.Flow

/-- **Where the entry of an exception table that an annotation refers to is found
    when frames are computed.**  Annotations keep the place of the entry, and
    entries leave a piece for each run of reachable instructions in them: what is
    found at the place is alike exactly if a piece of it or of one of its likes
    comes to lie there, for example if the entries in front leave as many pieces
    as they are. -/
theorem catches_prepare {hierarchy : Hierarchy} {owner : String} {method : MethodRecord}
    {code : Code} {a : Analysis} {options : EncodeOptions} {majorVersion : UInt16}
    (hlabels : Body.checkLabels code = .ok ()) (hframes : options.computeFrames = true)
    (hversion : Body.framesVersion ≤ majorVersion)
    (h : analyze hierarchy owner method code true = .ok a) :
    ∃ written, Body.prepare options hierarchy owner majorVersion method code = written ∧
      written.visibleTypeAnnotations = code.visibleTypeAnnotations ∧
      written.invisibleTypeAnnotations = code.invisibleTypeAnnotations ∧
      ∀ index entry, code.exceptionTable[index]? = some entry →
        (Catches written.exceptionTable index entry ↔
          ∃ j, Catches code.exceptionTable j entry ∧ piecesBefore code j ≤ index ∧
            index < piecesBefore code (j + 1)) ∧
        ((∃ i, Reachable code i ∧ entry.start ≤ i ∧ i < entry.stop) →
          piecesBefore code index = index → Catches written.exceptionTable index entry) := by
  have hinside := Body.checkLabels_eq_ok.mp hlabels
  obtain ⟨frames, hprepare⟩ := Body.prepare_of_analyze hframes hversion h
  refine ⟨_, hprepare, rfl, rfl, fun index entry hentry => ?_⟩
  have hnonempty : code.instructions ≠ [] := by
    intro hnil
    have := (hinside.handlers entry (List.mem_of_getElem? hentry)).2.2
    rw [Code.stop, hnil] at this
    exact Nat.not_lt_zero _ this
  obtain ⟨initial, run, hframed⟩ := framed_of_analyze hnonempty h
  have hexplored := explored_of_run (labelsInRange_of_labelsInside hinside) hnonempty
    (fun i hi => not_isCall_of_analyze h hi) hframed.entry hframed.finished
  have hiff : Catches a.exceptionTable index entry ↔ _ :=
    hframed.exceptionTable ▸ hexplored.catches_iff hinside
  refine ⟨hiff, fun ⟨i, hi, hstart, hstop⟩ hsame => hiff.mpr ⟨index, ⟨entry, hentry, rfl, rfl⟩, ?_⟩⟩
  rw [piecesBefore_succ hentry, hsame]
  exact ⟨Nat.le_refl _, Nat.lt_add_of_pos_right (pieces_pos hi hstart hstop)⟩

/-! ## A table whose first entry is left out -/

/-- A body that returns at once, with a handler for the unreachable instruction
    behind it and one for what is reached. -/
def guarded : Code where
  maxStack := 0
  maxLocals := 0
  instructions := [.simple Opcode.returnVoid, .simple Opcode.nop, .simple Opcode.athrow]
  exceptionTable := [⟨1, 2, 2, some "B"⟩, ⟨0, 1, 2, none⟩]
  lineNumbers := none
  localVariables := none
  localVariableTypes := none
  frames := none
  visibleTypeAnnotations := some [⟨.catch 1, [], ⟨"LX;", []⟩⟩]
  invisibleTypeAnnotations := none
  attributes := []

/-- A static method with that body. -/
def guardedMethod : MethodRecord := ⟨⟨0x0009⟩, "m", "()V", [], some guarded, .absent, []⟩

theorem analyze_guarded : ∃ a, analyze .trivial "A" guardedMethod guarded true = .ok a ∧
    a.exceptionTable = [⟨0, 1, 2, none⟩] :=
  Result.exists_ok (by decide +kernel)

/-- The annotation of the second entry refers to none when the body is written. -/
theorem catches_prepare_guarded :
    Body.checkLabels guarded = .ok () ∧
      ∃ a written, analyze .trivial "A" guardedMethod guarded true = .ok a ∧
        Body.prepare ⟨true, false⟩ .trivial "A" 52 guardedMethod guarded = written ∧
        written.visibleTypeAnnotations = guarded.visibleTypeAnnotations ∧
        written.exceptionTable[1]? = none ∧
        ¬ ∃ j, Catches guarded.exceptionTable j ⟨0, 1, 2, none⟩ ∧ piecesBefore guarded j ≤ 1 ∧
          1 < piecesBefore guarded (j + 1) := by
  obtain ⟨a, ha, htable⟩ := analyze_guarded
  have hlabels : Body.checkLabels guarded = .ok () := rfl
  obtain ⟨written, hwritten, hvisible, -, hcatches⟩ :=
    @catches_prepare .trivial "A" guardedMethod guarded a ⟨true, false⟩ 52 hlabels rfl (by decide) ha
  have hnone : written.exceptionTable[1]? = none := by
    obtain ⟨frames, hprepare⟩ :=
      @Body.prepare_of_analyze .trivial "A" guardedMethod guarded ⟨true, false⟩ 52 a rfl (by decide) ha
    rw [← hwritten, hprepare]
    simp only [htable]
    rfl
  refine ⟨hlabels, a, written, ha, hwritten, hvisible, hnone, fun hfound => ?_⟩
  obtain ⟨entry, hentry, -⟩ := (hcatches 1 ⟨0, 1, 2, none⟩ rfl).1.mpr hfound
  exact nomatch hnone.symm.trans hentry

end JvmClass
