/-
  What becomes of unreachable code.

  * `deadRanges_eq_nil`: there are unreachable ranges unless all was reached;
    they are disjoint (`disjoint_deadRanges`), hold what was not reached
    (`covered_deadRanges`) and begin behind what was (`starts_deadRanges`);
  * `mem_bury`: buried instructions are those of the body and some without
    operands;
  * `Flow.handlersAt` are the handlers of an instruction in the order in which
    they are tried; `handlersAt_cutTable`: taking ranges out of an exception
    table leaves none to the instructions in them and all to the others;
  * `mem_removeRanges`: what is left of an exception table covers what it
    covered or part of that, with the same handlers; `covered_cut` says which
    part.
-/
import JvmClass.Flow.DeadCode
import Mathlib.Data.List.Basic

namespace JvmClass.Flow

theorem deadRangesFrom_eq_nil {index : Nat} {start : Option Nat} {reached : List Bool} :
    deadRangesFrom index start reached = [] ↔ start = none ∧ ∀ b ∈ reached, b = true := by
  induction reached generalizing index start with
  | nil => cases start <;> simp [deadRangesFrom]
  | cons b reached ih =>
    cases b with
    | true => cases start <;> simp [deadRangesFrom, ih]
    | false => simp [deadRangesFrom, ih]

theorem deadRanges_eq_nil {reached : List Bool} :
    deadRanges reached = [] ↔ ∀ b ∈ reached, b = true := by
  simp [deadRanges, deadRangesFrom_eq_nil]

/-! ## Unreachable ranges -/

/-- Ascending ranges of places that do not overlap. -/
structure Apart (ranges : List (Nat × Nat)) : Prop where
  ascending : ranges.Pairwise fun r r' => r.2 ≤ r'.1
  proper : ∀ r ∈ ranges, r.1 < r.2

/-- Ascending ranges of places that do not touch. -/
structure Disjoint (ranges : List (Nat × Nat)) : Prop where
  ascending : ranges.Pairwise fun r r' => r.2 < r'.1
  proper : ∀ r ∈ ranges, r.1 < r.2

/-- Whether a place lies in one of some ranges. -/
def Covered (ranges : List (Nat × Nat)) (i : Nat) : Prop := ∃ r ∈ ranges, r.1 ≤ i ∧ i < r.2

instance (ranges : List (Nat × Nat)) (i : Nat) : Decidable (Covered ranges i) :=
  inferInstanceAs (Decidable (∃ r ∈ ranges, r.1 ≤ i ∧ i < r.2))

theorem covered_cons {range : Nat × Nat} {ranges : List (Nat × Nat)} {i : Nat} :
    Covered (range :: ranges) i ↔ range.1 ≤ i ∧ i < range.2 ∨ Covered ranges i := by
  simp [Covered]

theorem Apart.of_cons {range : Nat × Nat} {ranges : List (Nat × Nat)}
    (h : Apart (range :: ranges)) :
    range.1 < range.2 ∧ (∀ r ∈ ranges, range.2 ≤ r.1) ∧ Apart ranges := by
  obtain ⟨hfirst, hrest⟩ := List.pairwise_cons.mp h.ascending
  obtain ⟨hproper, hproper'⟩ := List.forall_mem_cons.mp h.proper
  exact ⟨hproper, hfirst, hrest, hproper'⟩

/-- In front of the end of a range, the ranges behind it cover nothing. -/
theorem Apart.not_covered {range : Nat × Nat} {ranges : List (Nat × Nat)} {i : Nat}
    (h : Apart (range :: ranges)) (hlt : i < range.2) : ¬ Covered ranges i := by
  rintro ⟨r, hr, hle, -⟩
  have := h.of_cons.2.1 r hr
  omega

theorem Disjoint.apart {ranges : List (Nat × Nat)} (h : Disjoint ranges) : Apart ranges :=
  ⟨h.ascending.imp Nat.le_of_lt, h.proper⟩

theorem Disjoint.of_cons {range : Nat × Nat} {ranges : List (Nat × Nat)}
    (h : Disjoint (range :: ranges)) :
    range.1 < range.2 ∧ (∀ r ∈ ranges, range.2 < r.1) ∧ Disjoint ranges := by
  obtain ⟨hfirst, hrest⟩ := List.pairwise_cons.mp h.ascending
  obtain ⟨hproper, hproper'⟩ := List.forall_mem_cons.mp h.proper
  exact ⟨hproper, hfirst, hrest, hproper'⟩

theorem Disjoint.cons {range : Nat × Nat} {ranges : List (Nat × Nat)} (hrange : range.1 < range.2)
    (hlt : ∀ r ∈ ranges, range.2 < r.1) (h : Disjoint ranges) : Disjoint (range :: ranges) :=
  ⟨List.pairwise_cons.mpr ⟨hlt, h.ascending⟩, List.forall_mem_cons.mpr ⟨hrange, h.proper⟩⟩

theorem Disjoint.lt_or_gt {ranges : List (Nat × Nat)} (h : Disjoint ranges) {r r' : Nat × Nat}
    (hr : r ∈ ranges) (hr' : r' ∈ ranges) (hne : r ≠ r') : r.2 < r'.1 ∨ r'.2 < r.1 := by
  obtain ⟨i, hi, rfl⟩ := List.getElem_of_mem hr
  obtain ⟨j, hj, rfl⟩ := List.getElem_of_mem hr'
  have hascending := List.pairwise_iff_getElem.mp h.ascending
  rcases Nat.lt_trichotomy i j with hlt | rfl | hgt
  · exact .inl (hascending i j hi hj hlt)
  · exact absurd rfl hne
  · exact .inr (hascending j i hj hi hgt)

/-- Where an unreachable range is open, at what place it began. -/
theorem lt_of_open {index : Nat} {start : Option Nat} (hstart : ∀ s ∈ start, s < index) :
    ∀ s ∈ some (start.getD index), s < index + 1 := by
  rintro s ⟨⟩
  cases start with
  | none => exact Nat.lt_succ_self index
  | some s => exact Nat.lt_succ_of_lt (hstart s rfl)

theorem disjoint_deadRangesFrom {index : Nat} {start : Option Nat} {reached : List Bool}
    (hstart : ∀ s ∈ start, s < index) :
    Disjoint (deadRangesFrom index start reached) ∧
      ∀ r ∈ deadRangesFrom index start reached, start.getD index ≤ r.1 := by
  induction reached generalizing index start with
  | nil =>
    cases start with
    | none => exact ⟨⟨.nil, nofun⟩, nofun⟩
    | some s => exact ⟨.cons (hstart s rfl) nofun ⟨.nil, nofun⟩, by simp [deadRangesFrom]⟩
  | cons b reached ih =>
    cases b with
    | false => exact ih (lt_of_open hstart)
    | true =>
      have hclosed : ∀ s ∈ (none : Option Nat), s < index + 1 := by simp
      obtain ⟨hrest, hle⟩ := ih hclosed
      cases start with
      | none => exact ⟨hrest, fun r hr => Nat.le_of_succ_le (hle r hr)⟩
      | some s =>
        refine ⟨.cons (hstart s rfl) hle hrest, List.forall_mem_cons.mpr ⟨Nat.le_refl s, ?_⟩⟩
        intro r hr
        exact Nat.le_of_lt (Nat.lt_trans (hstart s rfl) (hle r hr))

theorem disjoint_deadRanges (reached : List Bool) : Disjoint (deadRanges reached) := by
  have hclosed : ∀ s ∈ (none : Option Nat), s < 0 := by simp
  exact (disjoint_deadRangesFrom hclosed).1

theorem covered_deadRangesFrom {index : Nat} {start : Option Nat} {reached : List Bool}
    (hstart : ∀ s ∈ start, s < index) {i : Nat} :
    Covered (deadRangesFrom index start reached) i ↔
      (∃ s ∈ start, s ≤ i ∧ i < index) ∨ index ≤ i ∧ reached[i - index]? = some false := by
  induction reached generalizing index start with
  | nil => cases start <;> simp [deadRangesFrom, Covered]
  | cons b reached ih =>
    have hbehind : index + 1 ≤ i → (b :: reached)[i - index]? = reached[i - (index + 1)]? := by
      intro hle
      rw [show i - index = i - (index + 1) + 1 by omega, List.getElem?_cons_succ]
    have hplace : index ≤ i ∧ (b :: reached)[i - index]? = some false ↔
        i = index ∧ b = false ∨ index + 1 ≤ i ∧ reached[i - (index + 1)]? = some false := by
      rcases Nat.lt_trichotomy i index with hlt | rfl | hgt
      · omega
      · have hself : ¬ i + 1 ≤ i := Nat.not_succ_le_self i
        simp [hself]
      · rw [hbehind hgt]
        have hne : i ≠ index := Nat.ne_of_gt hgt
        have hle : index ≤ i := Nat.le_of_lt hgt
        simp [hne, hle, Nat.succ_le_of_lt hgt]
    rw [hplace]
    cases b with
    | true =>
      have hopen : Covered (deadRangesFrom index start (true :: reached)) i ↔
          (∃ s ∈ start, s ≤ i ∧ i < index) ∨ Covered (deadRangesFrom (index + 1) none reached) i := by
        cases start <;> simp [deadRangesFrom, Covered]
      rw [hopen, ih (by simp)]
      simp
    | false =>
      rw [deadRangesFrom, ih (lt_of_open hstart), ← or_assoc]
      refine or_congr_left ?_
      cases start with
      | none =>
        simp only [Option.getD_none, Option.mem_some_iff, exists_eq_left', Option.not_mem_none,
          false_and, exists_false, false_or, and_true]
        omega
      | some s =>
        have := hstart s rfl
        simp only [Option.getD_some, Option.mem_some_iff, exists_eq_left', and_true]
        omega

/-- **The unreachable ranges hold what was not reached.** -/
theorem covered_deadRanges {reached : List Bool} {i : Nat} :
    Covered (deadRanges reached) i ↔ reached[i]? = some false := by
  rw [deadRanges, covered_deadRangesFrom (by simp)]
  simp

theorem le_of_mem_deadRanges {reached : List Bool} {r : Nat × Nat} (h : r ∈ deadRanges reached) :
    r.2 ≤ reached.length := by
  have hproper := (disjoint_deadRanges reached).proper r h
  have hlast : reached[r.2 - 1]? = some false :=
    covered_deadRanges.mp ⟨r, h, by omega, by omega⟩
  have := (List.getElem?_eq_some_iff.mp hlast).1
  omega

/-- **The unreachable ranges begin behind what was reached.** -/
theorem starts_deadRanges {reached : List Bool} {k : Nat} :
    (∃ r ∈ deadRanges reached, r.1 = k) ↔
      reached[k]? = some false ∧ ∀ j, k = j + 1 → reached[j]? ≠ some false := by
  have hdisjoint := disjoint_deadRanges reached
  constructor
  · rintro ⟨r, hr, rfl⟩
    refine ⟨covered_deadRanges.mp ⟨r, hr, Nat.le_refl _, hdisjoint.proper r hr⟩, ?_⟩
    intro j hj hfalse
    obtain ⟨r', hr', hle, hlt⟩ := covered_deadRanges.mpr hfalse
    by_cases hsame : r = r'
    · subst hsame
      omega
    · have := hdisjoint.proper r hr
      rcases hdisjoint.lt_or_gt hr hr' hsame with h | h <;> omega
  · rintro ⟨hfalse, hbefore⟩
    obtain ⟨r, hr, hle, hlt⟩ := covered_deadRanges.mpr hfalse
    refine ⟨r, hr, Nat.le_antisymm hle (Nat.not_lt.mp fun hinside => ?_)⟩
    obtain ⟨j, rfl⟩ : ∃ j, k = j + 1 := Nat.exists_eq_succ_of_ne_zero (by omega)
    exact hbefore j rfl (covered_deadRanges.mp ⟨r, hr, Nat.le_of_lt_succ hinside, by omega⟩)

/-! ## Buried instructions -/

@[simp] theorem length_bury (reached : Array Bool) (instructions : List Instruction) :
    (bury reached instructions).length = instructions.length := by
  simp [bury]

/-- A buried instruction is one of the body, or has no operands. -/
theorem mem_bury {reached : Array Bool} {instructions : List Instruction} {i : Instruction}
    (h : i ∈ bury reached instructions) : i ∈ instructions ∨ ∃ opcode, i = .simple opcode := by
  obtain ⟨index, hlt, rfl⟩ := List.mem_mapIdx.mp h
  split
  · split
    · exact .inr ⟨_, rfl⟩
    · exact .inr ⟨_, rfl⟩
  · exact .inl (List.getElem_mem hlt)

/-- The instructions at each place after unreachable ones were buried. -/
theorem getElem?_bury (reached : Array Bool) (instructions : List Instruction) (i : Nat) :
    (bury reached instructions)[i]? = instructions[i]?.map fun instruction =>
      if reached[i]? = some false then
        if reached[i + 1]? = some false then .simple Opcode.nop else .simple Opcode.athrow
      else instruction := by
  rw [bury, List.getElem?_mapIdx]

/-! ## Exception tables -/

/-- A piece of an exception table entry covers part of what it covered. -/
theorem mem_cut {handler piece : ExceptionHandler} {start : Label} {ranges : List (Nat × Nat)}
    (h : piece ∈ cut handler start ranges) :
    piece.start < piece.stop ∧ piece.stop ≤ handler.stop ∧ piece.handler = handler.handler ∧
      piece.catchType = handler.catchType := by
  induction ranges generalizing start with
  | nil =>
    rw [cut] at h
    split at h
    next hlt =>
      obtain rfl := List.mem_singleton.mp h
      exact ⟨hlt, Nat.le_refl _, rfl, rfl⟩
    next => exact nomatch h
  | cons range ranges ih =>
    obtain ⟨first, last⟩ := range
    rw [cut] at h
    split at h
    next => exact ih h
    next hoverlap =>
      rcases List.mem_append.mp h with hpiece | hrest
      · split at hpiece
        next hlt =>
          obtain rfl := List.mem_singleton.mp hpiece
          have hfirst : first < handler.stop := Nat.not_le.mp fun h => hoverlap (.inr h)
          exact ⟨hlt, Nat.le_of_lt hfirst, rfl, rfl⟩
        next => exact nomatch hpiece
      · exact ih hrest

/-- The handlers of an instruction, each with the class that it catches, in the
    order in which they are tried. -/
def handlersAt (table : List ExceptionHandler) (i : Label) : List (Label × Option String) :=
  (table.filter fun entry => entry.start ≤ i ∧ i < entry.stop).map fun entry =>
    (entry.handler, entry.catchType)

theorem mem_handlersAt {table : List ExceptionHandler} {i : Label} {p : Label × Option String} :
    p ∈ handlersAt table i ↔
      ∃ entry ∈ table, (entry.start ≤ i ∧ i < entry.stop) ∧
        (entry.handler, entry.catchType) = p := by
  simp only [handlersAt, List.mem_map, List.mem_filter, decide_eq_true_eq, and_assoc]

theorem handlersAt_append (front back : List ExceptionHandler) (i : Label) :
    handlersAt (front ++ back) i = handlersAt front i ++ handlersAt back i := by
  rw [handlersAt, List.filter_append, List.map_append]
  rfl

/-- One piece, left out if it would be empty, is a handler of what lies between
    its ends. -/
theorem handlersAt_piece (handler : ExceptionHandler) (start stop i : Nat) :
    handlersAt (if start < stop then [{ handler with start := start, stop := stop }] else []) i =
      if start ≤ i ∧ i < stop then [(handler.handler, handler.catchType)] else [] := by
  by_cases hinside : start ≤ i ∧ i < stop
  · have hproper : start < stop := Nat.lt_of_le_of_lt hinside.1 hinside.2
    simp [handlersAt, hproper, hinside]
  · rw [if_neg hinside]
    split
    next => simp [handlersAt, hinside]
    next => rfl

/-- **The pieces of an exception table entry are one handler of what it covered
    and the ranges do not.** -/
theorem handlersAt_cut (handler : ExceptionHandler) {start : Nat} {ranges : List (Nat × Nat)}
    (h : Apart ranges) (i : Nat) :
    handlersAt (cut handler start ranges) i =
      if start ≤ i ∧ i < handler.stop ∧ ¬ Covered ranges i then
        [(handler.handler, handler.catchType)]
      else [] := by
  induction ranges generalizing start with
  | nil =>
    have hnone : ¬ Covered [] i := by simp [Covered]
    simp only [cut, hnone, not_false_eq_true, and_true]
    exact handlersAt_piece handler start handler.stop i
  | cons range ranges ih =>
    have hclear := h.not_covered (i := i)
    obtain ⟨hproper, -, hrest⟩ := h.of_cons
    obtain ⟨first, last⟩ := range
    dsimp only at hproper hclear
    rw [cut]
    simp only [covered_cons]
    by_cases hapart : last ≤ start ∨ first ≥ handler.stop
    · rw [if_pos hapart, ih hrest]
      refine if_congr (and_congr_right fun hle => and_congr_right fun hlt => not_congr ?_) rfl rfl
      exact ⟨.inr, fun h => h.resolve_left fun hinside => by omega⟩
    · rw [if_neg hapart, handlersAt_append, ih hrest]
      change handlersAt (if start < first then [{ handler with start, stop := first }] else []) i ++
        _ = _
      rw [handlersAt_piece]
      -- In front of the end of the range only the piece counts, behind it only the rest.
      by_cases hlt : i < last
      · have hrest : ¬ (min last handler.stop ≤ i ∧ i < handler.stop ∧ ¬ Covered ranges i) := by
          omega
        rw [if_neg hrest, List.append_nil]
        refine if_congr ?_ rfl rfl
        have := hclear hlt
        simp only [hlt, this, and_true, or_false]
        omega
      · have hpiece : ¬ (start ≤ i ∧ i < first) := by omega
        rw [if_neg hpiece, List.nil_append]
        refine if_congr ?_ rfl rfl
        simp only [hlt, and_false, false_or]
        constructor
        · rintro ⟨hle, hstop, hnone⟩
          exact ⟨by omega, hstop, hnone⟩
        · rintro ⟨hle, hstop, hnone⟩
          exact ⟨by omega, hstop, hnone⟩

/-- The pieces of an exception table entry cover what it covered and the ranges
    do not. -/
theorem covered_cut {handler : ExceptionHandler} {start : Nat} {ranges : List (Nat × Nat)}
    (h : Apart ranges) {i : Nat} :
    (∃ piece ∈ cut handler start ranges, piece.start ≤ i ∧ i < piece.stop) ↔
      start ≤ i ∧ i < handler.stop ∧ ¬ Covered ranges i := by
  have hsome : (∃ piece ∈ cut handler start ranges, piece.start ≤ i ∧ i < piece.stop) ↔
      ∃ p, p ∈ handlersAt (cut handler start ranges) i := by
    simp only [mem_handlersAt]
    constructor
    · rintro ⟨piece, hmem, hinside⟩
      exact ⟨_, piece, hmem, hinside, rfl⟩
    · rintro ⟨_, piece, hmem, hinside, -⟩
      exact ⟨piece, hmem, hinside⟩
  rw [hsome, handlersAt_cut handler h]
  split
  next hinside => simp [hinside]
  next hinside => simp [hinside]

/-- The first handler of an instruction that catches an exception, if
    `catches` tells which classes of exceptions do. -/
def handlerFor (table : List ExceptionHandler) (i : Label) (catches : Option String → Bool) :
    Option Label :=
  (table.find? fun entry =>
    decide (entry.start ≤ i ∧ i < entry.stop) && catches entry.catchType).map (·.handler)

/-- Which handler is chosen depends on the handlers of the instruction alone. -/
theorem handlerFor_eq (table : List ExceptionHandler) (i : Label)
    (catches : Option String → Bool) :
    handlerFor table i catches =
      ((handlersAt table i).find? fun p => catches p.2).map (·.1) := by
  rw [handlerFor, handlersAt, List.find?_map, List.find?_filter, Option.map_map]
  simp only [Bool.decide_and, Bool.decide_eq_true, Function.comp_def]

/-- **Taking ranges out of an exception table keeps the handlers of all other
    instructions**, in their order, and so the one that is chosen for an
    exception.  No entry of the new table is empty, and none covers an
    instruction in the ranges. -/
theorem handlersAt_cutTable (table : List ExceptionHandler) {ranges : List (Nat × Nat)}
    (h : Apart ranges) :
    (∀ entry ∈ cutTable table ranges, entry.start < entry.stop) ∧
    (∀ i, Covered ranges i → ∀ entry ∈ cutTable table ranges,
      ¬ (entry.start ≤ i ∧ i < entry.stop)) ∧
    ∀ i, ¬ Covered ranges i →
      handlersAt (cutTable table ranges) i = handlersAt table i ∧
        ∀ catches, handlerFor (cutTable table ranges) i catches = handlerFor table i catches := by
  refine ⟨fun entry hmem => ?_, fun i hcovered entry hmem hinside => ?_, fun i hclear => ?_⟩
  · obtain ⟨handler, -, hpiece⟩ := List.mem_flatMap.mp hmem
    exact (mem_cut hpiece).1
  · obtain ⟨handler, -, hpiece⟩ := List.mem_flatMap.mp hmem
    exact ((covered_cut h).mp ⟨entry, hpiece, hinside⟩).2.2 hcovered
  · have hsame : handlersAt (cutTable table ranges) i = handlersAt table i := by
      induction table with
      | nil => rfl
      | cons handler table ih =>
        have hfirst : handlersAt [handler] i =
            if handler.start ≤ i ∧ i < handler.stop ∧ ¬ Covered ranges i then
              [(handler.handler, handler.catchType)]
            else [] := by
          by_cases hinside : handler.start ≤ i ∧ i < handler.stop
          · simp [handlersAt, hinside, hclear]
          · simp [handlersAt, hinside, hclear]
        have hrest : cutTable (handler :: table) ranges =
            cut handler handler.start ranges ++ cutTable table ranges := rfl
        rw [hrest, handlersAt_append, handlersAt_cut handler h, ih, ← hfirst, ← handlersAt_append,
          List.singleton_append]
    refine ⟨hsame, fun catches => ?_⟩
    rw [handlerFor_eq, handlerFor_eq, hsame]

/-- Two ranges that touch are taken out of an entry, and swallow another one. -/
theorem handlersAt_cutTable_touching :
    Apart [(1, 2), (2, 4)] ∧
      cutTable [⟨0, 5, 5, some "E"⟩, ⟨2, 4, 6, none⟩, ⟨4, 6, 6, none⟩] [(1, 2), (2, 4)] =
        [⟨0, 1, 5, some "E"⟩, ⟨4, 5, 5, some "E"⟩, ⟨4, 6, 6, none⟩] ∧
      handlersAt (cutTable [⟨0, 5, 5, some "E"⟩, ⟨2, 4, 6, none⟩, ⟨4, 6, 6, none⟩]
        [(1, 2), (2, 4)]) 4 = [(5, some "E"), (6, none)] := by
  have hapart : Apart [(1, 2), (2, 4)] := ⟨by decide, by decide⟩
  refine ⟨hapart, by decide, ?_⟩
  obtain ⟨-, -, hkept⟩ := handlersAt_cutTable
    [⟨0, 5, 5, some "E"⟩, ⟨2, 4, 6, none⟩, ⟨4, 6, 6, none⟩] hapart
  rw [(hkept 4 (by decide)).1]
  decide

@[simp] theorem removeRanges_nil (table : List ExceptionHandler) : removeRanges table [] = table :=
  rfl

/-- What is left of an exception table is an entry of it, or covers part of what
    it covered. -/
theorem mem_removeRanges {table : List ExceptionHandler} {ranges : List (Nat × Nat)}
    {piece : ExceptionHandler} (h : piece ∈ removeRanges table ranges) :
    piece ∈ table ∨ ∃ handler ∈ table, piece.start < piece.stop ∧ piece.stop ≤ handler.stop ∧
      piece.handler = handler.handler ∧ piece.catchType = handler.catchType := by
  unfold removeRanges at h
  split at h
  next => exact .inl h
  next =>
    obtain ⟨handler, hmem, hpiece⟩ := List.mem_flatMap.mp h
    exact .inr ⟨handler, hmem, mem_cut hpiece⟩

end JvmClass.Flow
