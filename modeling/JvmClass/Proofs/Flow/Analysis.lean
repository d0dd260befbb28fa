/-
  What an analysis is put together from.

  * `Flow.Measured` says how the result comes from a finished interpretation;
    `analyze_eq_ok` takes a successful analysis apart, `analyzeBody_eq_error` one
    that fails;
  * `noSubroutine_of_analyze`: with frames, there are no subroutines.
-/
import JvmClass.Flow.Analysis
import JvmClass.Proofs.Result

namespace JvmClass

namespace Flow

theorem le_foldl_max {least n : Nat} {numbers : List Nat} (h : n ∈ least :: numbers) :
    n ≤ numbers.foldl max least := by
  induction numbers generalizing least n with
  | nil => exact Nat.le_of_eq (List.mem_singleton.mp h)
  | cons m numbers ih =>
    have hmax := ih (List.mem_cons_self (a := max least m))
    rcases List.mem_cons.mp h with rfl | h
    · exact Nat.le_trans (Nat.le_max_left ..) hmax
    · rcases List.mem_cons.mp h with rfl | h
      · exact Nat.le_trans (Nat.le_max_right ..) hmax
      · exact ih (.tail _ h)

theorem le_maxLocals (least : Nat) (instructions : List Instruction) :
    least ≤ maxLocals least instructions :=
  le_foldl_max (.head _)

/-- The largest stack and the analysis, sizes apart, of a body that is entered
    with `initial`. -/
inductive Measured (hierarchy : Hierarchy) (owner : String) (code : Code)
    (initial : List VerificationType) (computeFrames : Bool) : Nat × Analysis → Prop
  | empty (h : code.instructions = []) :
    Measured hierarchy owner code initial computeFrames
      (0, ⟨0, 0, if computeFrames then some [] else none, [], code.exceptionTable⟩)
  | framed {run : Run} (hframes : computeFrames = true) (hnonempty : code.instructions ≠ [])
      (hrun : Flow.run (bodyOf hierarchy owner code true) (entryState initial code true) =
        .ok run) :
    Measured hierarchy owner code initial computeFrames (withFrames code run)
  | sized {run : Run} (hframes : computeFrames = false) (hnonempty : code.instructions ≠ [])
      (hrun : Flow.run (bodyOf hierarchy owner code false) (entryState initial code false) =
        .ok run) :
    Measured hierarchy owner code initial computeFrames
      (run.maxStack, ⟨0, 0, none, code.instructions, code.exceptionTable⟩)

end Flow

open JvmClass.Flow

variable {hierarchy : Hierarchy} {owner : String} {method : MethodRecord} {code : Code}
  {computeFrames : Bool}

/-- **A successful analysis comes from a finished interpretation**, with sizes
    that fit a word. -/
theorem analyze_eq_ok {a : Analysis} (h : analyze hierarchy owner method code computeFrames = .ok a) :
    ∃ initial measured,
      initialLocals owner method.access method.name method.descriptor = .ok initial ∧
      Measured hierarchy owner code initial computeFrames measured ∧
      localsOf initial code ≤ 0xFFFF ∧ measured.1 ≤ 0xFFFF ∧
      a = { measured.2 with
        maxStack := UInt16.ofNat measured.1
        maxLocals := UInt16.ofNat (localsOf initial code) } := by
  have hanalyze := Result.mapError_eq_ok.mp h
  unfold analyzeBody at hanalyze
  obtain ⟨initial, hinitial, hanalyze⟩ := Result.bind_eq_ok.mp hanalyze
  dsimp only at hanalyze
  obtain ⟨hlocals, hanalyze⟩ := Result.guard_eq_ok.mp hanalyze
  obtain ⟨-, hanalyze⟩ := Result.guard_eq_ok.mp hanalyze
  refine ⟨initial, ?_⟩
  suffices hmeasured : ∃ measured, Measured hierarchy owner code initial computeFrames measured ∧
      measured.1 ≤ 0xFFFF ∧ a = { measured.2 with
        maxStack := UInt16.ofNat measured.1
        maxLocals := UInt16.ofNat (localsOf initial code) } by
    obtain ⟨measured, hmeasured, hstack, rfl⟩ := hmeasured
    exact ⟨measured, Result.mapError_eq_ok.mp hinitial, hmeasured, Nat.not_lt.mp hlocals, hstack,
      rfl⟩
  split at hanalyze
  next hempty =>
    rw [pure_bind] at hanalyze
    obtain ⟨hstack, hanalyze⟩ := Result.guard_eq_ok.mp hanalyze
    cases hanalyze
    exact ⟨_, .empty (List.isEmpty_iff.mp hempty), Nat.not_lt.mp hstack, rfl⟩
  next hnonempty =>
    have hnonempty : code.instructions ≠ [] := fun h => hnonempty (List.isEmpty_iff.mpr h)
    obtain ⟨run, hrun, hrest⟩ := Result.bind_eq_ok.mp hanalyze
    clear hanalyze
    split at hrest
    next hframes =>
      subst hframes
      rw [pure_bind] at hrest
      obtain ⟨hstack, hdone⟩ := Result.guard_eq_ok.mp hrest
      cases hdone
      exact ⟨_, .framed rfl hnonempty hrun, Nat.not_lt.mp hstack, rfl⟩
    next hframes =>
      obtain rfl : computeFrames = false := by simpa using hframes
      rw [pure_bind] at hrest
      obtain ⟨hstack, hdone⟩ := Result.guard_eq_ok.mp hrest
      cases hdone
      exact ⟨_, .sized rfl hnonempty hrun, Nat.not_lt.mp hstack, rfl⟩

/-- **What an analysis fails for**: the descriptor of the method, too many
    locals, subroutines where frames were asked for, the interpretation, or too
    large a stack. -/
theorem analyzeBody_eq_error {cause : Invalid}
    (h : analyzeBody hierarchy owner method code computeFrames = .error cause) :
    (∃ malformed, initialLocals owner method.access method.name method.descriptor =
        .error malformed ∧ cause = .badDescriptor malformed) ∨
      ∃ initial,
        initialLocals owner method.access method.name method.descriptor = .ok initial ∧
        (0xFFFF < localsOf initial code ∧ cause = .localSlots (localsOf initial code) ∨
          computeFrames = true ∧ cause = .subroutine ∨
          code.instructions ≠ [] ∧ Flow.run (bodyOf hierarchy owner code computeFrames)
            (entryState initial code computeFrames) = .error cause ∨
          ∃ measured, Measured hierarchy owner code initial computeFrames measured ∧
            0xFFFF < measured.1 ∧ cause = .stackSlots measured.1) := by
  unfold analyzeBody at h
  rcases Result.bind_eq_error.mp h with hfail | ⟨initial, hinitial, hrest⟩
  · obtain ⟨malformed, hmalformed, rfl⟩ := Result.mapError_eq_error.mp hfail
    exact .inl ⟨malformed, hmalformed, rfl⟩
  refine .inr ⟨initial, Result.mapError_eq_ok.mp hinitial, ?_⟩
  dsimp only at hrest
  rcases Result.guard_eq_error.mp hrest with hlocals | ⟨-, hrest⟩
  · exact .inl hlocals
  rcases Result.guard_eq_error.mp hrest with ⟨hsubroutine, hcause⟩ | ⟨-, hrest⟩
  · exact .inr (.inl ⟨(Bool.and_eq_true_iff.mp hsubroutine).1, hcause⟩)
  split at hrest
  next =>
    rw [pure_bind] at hrest
    rcases Result.guard_eq_error.mp hrest with ⟨hstack, -⟩ | ⟨-, hdone⟩
    · exact absurd hstack (Nat.not_lt_zero _)
    · exact nomatch hdone
  next hempty =>
    have hnonempty : code.instructions ≠ [] := fun h => hempty (List.isEmpty_iff.mpr h)
    rcases Result.bind_eq_error.mp hrest with hfail | ⟨run, hrun, hmeasure⟩
    · exact .inr (.inr (.inl ⟨hnonempty, hfail⟩))
    refine .inr (.inr (.inr ?_))
    clear h hrest
    split at hmeasure
    next hframes =>
      subst hframes
      rw [pure_bind] at hmeasure
      rcases Result.guard_eq_error.mp hmeasure with hstack | ⟨-, hdone⟩
      · exact ⟨_, .framed rfl hnonempty hrun, hstack⟩
      · exact nomatch hdone
    next hframes =>
      obtain rfl : computeFrames = false := by simpa using hframes
      rw [pure_bind] at hmeasure
      rcases Result.guard_eq_error.mp hmeasure with hstack | ⟨-, hdone⟩
      · exact ⟨_, .sized rfl hnonempty hrun, hstack⟩
      · exact nomatch hdone

theorem noSubroutine_of_analyze {a : Analysis} (h : analyze hierarchy owner method code true = .ok a)
    {i : Instruction} (hmem : i ∈ code.instructions) :
    i.opcode ≠ Opcode.jsr ∧ i.opcode ≠ Opcode.jsrW ∧ i.opcode ≠ Opcode.ret := by
  have hanalyze := Result.mapError_eq_ok.mp h
  unfold analyzeBody at hanalyze
  obtain ⟨initial, -, hanalyze⟩ := Result.bind_eq_ok.mp hanalyze
  dsimp only at hanalyze
  obtain ⟨-, hanalyze⟩ := Result.guard_eq_ok.mp hanalyze
  obtain ⟨hnone, -⟩ := Result.guard_eq_ok.mp hanalyze
  simp only [isSubroutine, Bool.true_and, List.any_eq_true, not_exists, not_and, Bool.or_eq_true,
    beq_iff_eq, not_or] at hnone
  obtain ⟨⟨hjsr, hjsrW⟩, hret⟩ := hnone i hmem
  exact ⟨hjsr, hjsrW, hret⟩

end JvmClass
