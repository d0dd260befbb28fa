/-
  The operand stack along paths.

  * `Body.Replays` are the states that instructions are entered with when those
    of one path are run one after the other, without merging anything;
  * `Body.Sums`: the entry of an instruction gathers the states of all paths to
    it, which the interpretation keeps (`invariant_sums`);
  * `stackSize_le_of_analyze`: where the paths to an instruction have operands of
    two slots at the same places, no path takes more stack than was computed.
-/
import JvmClass.Proofs.Flow.Faults
import JvmClass.Proofs.Flow.Tracks

namespace JvmClass

open JvmClass.Flow

namespace Flow

/-! ## Paths -/

/-- A path from the first instruction leads to this one, and running its
    instructions one after the other leads to this state. -/
inductive Body.Replays (body : Body) (initial : FlowState) : Label → FlowState → Prop
  | start : Replays body initial 0 initial
  | next {index : Label} {instruction : Instruction} {before after : FlowState}
      (hbefore : Replays body initial index before)
      (hinstruction : body.instructions[index]? = some instruction)
      (hexecute : body.execute index instruction before = .ok after)
      (hends : instruction.endsBlock = false) (hlt : index + 1 < body.instructions.size) :
    Replays body initial (index + 1) after
  | branch {index : Label} {instruction : Instruction} {before after : FlowState}
      {edge : Label × FlowState} (hbefore : Replays body initial index before)
      (hinstruction : body.instructions[index]? = some instruction)
      (hexecute : body.execute index instruction before = .ok after)
      (hedge : edge ∈ branchEdges instruction after) :
    Replays body initial edge.1 edge.2

/-- Where a path goes on from a place, and in which states. -/
def Body.onward (body : Body) (place : Label × FlowState) : List (Label × FlowState) :=
  match body.instructions[place.1]? with
  | none => []
  | some instruction =>
    match body.execute place.1 instruction place.2 with
    | .error _ => []
    | .ok after =>
      branchEdges instruction after ++
        if instruction.endsBlock = false ∧ place.1 + 1 < body.instructions.size then
          [(place.1 + 1, after)]
        else []

/-- Paths do not leave a list of places from which nothing leads out. -/
theorem Body.Replays.mem_of_closed {body : Body} {initial : FlowState}
    {places : List (Label × FlowState)} (hstart : (0, initial) ∈ places)
    (hclosed : ∀ place ∈ places, ∀ other ∈ body.onward place, other ∈ places) {index : Label}
    {state : FlowState} (h : body.Replays initial index state) : (index, state) ∈ places := by
  induction h with
  | start => exact hstart
  | next _ hinstruction hexecute hends hlt ih =>
    refine hclosed _ ih _ ?_
    simp only [onward, hinstruction, hexecute]
    rw [if_pos ⟨hends, hlt⟩]
    exact List.mem_append_right _ (.head _)
  | branch _ hinstruction hexecute hedge ih =>
    refine hclosed _ ih _ ?_
    simp only [onward, hinstruction, hexecute]
    exact List.mem_append_left _ hedge

/-- The entry of an instruction stands for the states of all paths to it. -/
structure Body.Sums (body : Body) (initial : FlowState) (index : Label) (entry : FlowState) :
    Prop where
  reached : ∃ state, body.Replays initial index state
  gathers : FlowState.Gathers (fun _ => False)
    (Subtype.val : {state // body.Replays initial index state} → FlowState) entry

theorem Body.Sums.nonempty {body : Body} {initial : FlowState} {index : Label}
    {entry : FlowState} (h : body.Sums initial index entry) :
    Nonempty {state // body.Replays initial index state} :=
  nonempty_subtype.mpr h.reached

theorem foldl_max_le {least bound : Nat} {numbers : List Nat} (hleast : least ≤ bound)
    (h : ∀ n ∈ numbers, n ≤ bound) : numbers.foldl max least ≤ bound := by
  induction numbers generalizing least with
  | nil => exact hleast
  | cons n numbers ih =>
    obtain ⟨hn, hnumbers⟩ := List.forall_mem_cons.mp h
    exact ih (Nat.max_le.mpr ⟨hleast, hn⟩) hnumbers

theorem Body.Sums.even {body : Body} {initial : FlowState} {index : Label}
    {entry other : FlowState} (h : body.Sums initial index entry)
    (h' : body.Sums initial index other) : entry.Even other := by
  obtain ⟨state, hstate⟩ := h.reached
  exact (h.gathers.even ⟨state, hstate⟩).symm.trans (h'.gathers.even ⟨state, hstate⟩)

theorem gathers_pass {ι : Type} [Nonempty ι] {low : ι → Prop} {states : ι → FlowState}
    {state : FlowState} (h : FlowState.Gathers low states state) {pass : FlowState → FlowState}
    (hpass : pass = id ∨ pass = fun other => { other with stack := .returnAddress :: other.stack }) :
    FlowState.Gathers low (fun j => pass (states j)) (pass state) := by
  rcases hpass with rfl | rfl
  · exact h
  · exact h.pushed (.const .returnAddress)

/-- The state in which a path through a method body, whose method is entered with
    `initial`, reaches the instruction at `index`. -/
abbrev OnPath (hierarchy : Hierarchy) (owner : String) (code : Code)
    (initial : List VerificationType) (index : Label) (state : FlowState) : Prop :=
  (bodyOf hierarchy owner code false).Replays (entryState initial code false) index state

/-- What is asked of the paths through a method body. -/
structure EvenPaths (hierarchy : Hierarchy) (owner : String) (code : Code)
    (initial : List VerificationType) : Prop where
  /-- Where paths meet, they have operands of two slots at the same places. -/
  even : ∀ index state other, OnPath hierarchy owner code initial index state →
    OnPath hierarchy owner code initial index other → state.Even other
  /-- Instructions find operands that they are made for. -/
  suits : ∀ index instruction state, code.instructions[index]? = some instruction →
    OnPath hierarchy owner code initial index state → instruction.Suits state
  classes : ShallowClasses owner code.instructions.toArray
  hierarchy : hierarchy.Shallow

/-- Larger stacks that are even are larger on their way to branch targets as
    well. -/
theorem Body.stackAfter_le {instruction : Instruction} {low high : FlowState}
    (heven : low.Even high) (hle : low.stack.length ≤ high.stack.length) :
    stackAfter instruction low ≤ stackAfter instruction high := by
  have hlow := FlowState.stackSize_le_of_length_le heven hle
  refine foldl_max_le (Nat.le_trans hlow (le_foldl_max (.head _))) fun n hn => ?_
  obtain ⟨edge, hedge, rfl⟩ := List.mem_map.mp hn
  obtain ⟨pass, hpass, heq, hedges⟩ := exists_pass_of_mem_branchEdges hedge
  have hpassed : (pass low).stackSize ≤ (pass high).stackSize := by
    rcases hpass with rfl | rfl
    · exact hlow
    · exact FlowState.stackSize_le_of_length_le (heven.pushed .returnAddress) (Nat.succ_le_succ hle)
  rw [heq]
  exact Nat.le_trans hpassed (le_foldl_max (.tail _ (List.mem_map.mpr ⟨_, hedges high, rfl⟩)))

section
variable {hierarchy : Hierarchy} {owner : String} {code : Code} {initial : List VerificationType}

theorem loose_of_onPath {access : Access} {name descriptor : String}
    (hinitial : initialLocals owner access name descriptor = .ok initial) {index : Label}
    {state : FlowState} (h : OnPath hierarchy owner code initial index state) :
    state.Loose code.instructions.toArray (localsOf initial code) := by
  induction h with
  | start => exact FlowState.loose_entryState hinitial code
  | next _ hinstruction hexecute _ _ ih => exact (loose_execute hinstruction ih).1 _ hexecute
  | branch _ hinstruction hexecute hedge ih =>
    have hafter := (loose_execute hinstruction ih).1 _ hexecute
    rcases Body.eq_of_mem_branchEdges hedge with heq | heq
    · exact heq ▸ hafter
    · rw [heq]
      exact { hafter with
        stack := List.forall_mem_cons.mpr ⟨Value.Plain.named nofun, hafter.stack⟩ }

variable {access : Access} {name descriptor : String}
  (hinitial : initialLocals owner access name descriptor = .ok initial)
  (hpaths : EvenPaths hierarchy owner code initial)
include hinitial hpaths

/-- An instruction that runs from an entry runs from the states of all paths to
    it. -/
theorem Body.Sums.execute (low : FlowState → Prop) {index : Label} {entry after : FlowState}
    (hsums : (bodyOf hierarchy owner code false).Sums (entryState initial code false) index entry)
    (hlow : ∀ state, OnPath hierarchy owner code initial index state → low state →
      state.stack.length ≤ entry.stack.length) {instruction : Instruction}
    (hinstruction : (bodyOf hierarchy owner code false).instructions[index]? = some instruction)
    (hexecute : (bodyOf hierarchy owner code false).execute index instruction entry = .ok after) :
    ∃ afters : {state // OnPath hierarchy owner code initial index state} → FlowState,
      (∀ state, (bodyOf hierarchy owner code false).execute index instruction state.1 =
        .ok (afters state)) ∧
      FlowState.Gathers (fun state => low state.1) afters after := by
  have hsome := hsums.nonempty
  have hgathers : FlowState.Gathers (fun state => low state.1)
      (Subtype.val : {state // OnPath hierarchy owner code initial index state} → FlowState) entry :=
    { hsums.gathers with height := fun state => hlow state.1 state.2 }
  have hget : code.instructions.toArray[index]? = some instruction := hinstruction
  have hrun := Body.execute_eq_ok.mp hexecute
  have hsuits (state : {state // OnPath hierarchy owner code initial index state}) :
      instruction.Suits state.1 :=
    hpaths.suits index instruction state.1 (by simpa using hget) state.2
  obtain ⟨afters, hafters, hafter⟩ := gathers_execute hgathers hpaths.classes hget
    (fun state => loose_of_onPath hinitial state.2) hsuits hrun
  exact ⟨afters, fun state => Body.execute_eq_ok.mpr (hafters state), hafter⟩

/-- Gathered states that reach an instruction are among those of all paths to
    it. -/
theorem Body.Sums.of_gathers {ι : Type} [Nonempty ι] {low : ι → Prop} {index : Label}
    {states : ι → FlowState} {state : FlowState} (h : FlowState.Gathers low states state)
    (hstates : ∀ j, OnPath hierarchy owner code initial index (states j)) :
    (bodyOf hierarchy owner code false).Sums (entryState initial code false) index state := by
  have j : ι := Classical.arbitrary ι
  refine ⟨⟨_, hstates j⟩, h.widen inferInstance (fun j => ⟨⟨_, hstates j⟩, rfl⟩) (fun other => ?_)
    (fun other => ?_) fun other another => ?_⟩
  · exact (loose_of_onPath hinitial other.2).lenient
  · rw [(loose_of_onPath hinitial other.2).length, ← h.length j,
      (loose_of_onPath hinitial (hstates j)).length]
  · exact hpaths.even index other.1 another.1 other.2 another.2

/-- **The interpretation keeps that entries stand for the paths to them**, and an
    entry stays as high as what is passed on to it. -/
theorem invariant_sums (hlabels : LabelsInRange code) (hhandlers : code.exceptionTable = []) :
    (bodyOf hierarchy owner code false).Invariant
      (fun _ index entry =>
        (bodyOf hierarchy owner code false).Sums (entryState initial code false) index entry)
      (fun entry state => state.stack.length ≤ entry.stack.length) where
  mono _ h := h
  merge hs hw hmerge := by
    have hsome := hs.nonempty
    exact ⟨hs.reached, hs.gathers.merged hpaths.hierarchy hw.gathers hmerge⟩
  step hinstruction hsums hexecute hedges edge hmem := by
    refine ⟨Body.lt_of_mem_successors hlabels.closed hinstruction hedges hmem, ?_⟩
    have hsome := hsums.nonempty
    obtain ⟨afters, hafters, hafter⟩ :=
      hsums.execute hinitial hpaths (fun _ => False) (fun _ _ hlow => hlow.elim) hinstruction
        hexecute
    rcases Body.mem_successors_cases hedges hmem with hhandler | hbranch | ⟨hends, rfl, hlt⟩
    · obtain ⟨handler, hh, -⟩ := Body.mem_handlerEdges.mp hhandler
      rw [show (bodyOf hierarchy owner code false).handlers = [] from hhandlers] at hh
      exact nomatch hh
    · obtain ⟨pass, hpass, heq, hedge⟩ := Body.exists_pass_of_mem_branchEdges hbranch
      rw [heq]
      exact .of_gathers hinitial hpaths (gathers_pass hafter hpass) fun other =>
        .branch other.2 hinstruction (hafters other) (hedge (afters other))
    · exact .of_gathers hinitial hpaths hafter fun other =>
        .next other.2 hinstruction (hafters other) hends hlt
  self _ := Nat.le_refl _
  absorb hs hw hmerge :=
    (FlowState.length_le_of_mergeState (hs.even hw) hs.gathers.lenient hmerge).2
  keep hs hw hmerge hle :=
    Nat.le_trans hle (FlowState.length_le_of_mergeState (hs.even hw) hs.gathers.lenient hmerge).1

/-! ## A finished interpretation -/

variable (hlabels : LabelsInRange code) (hhandlers : code.exceptionTable = []) {run : Run}
  (hrun : Flow.run (bodyOf hierarchy owner code false) (entryState initial code false) = .ok run)
include hlabels hhandlers hrun

theorem sums_of_run :
    run.Finished (bodyOf hierarchy owner code false)
      (fun _ index entry =>
        (bodyOf hierarchy owner code false).Sums (entryState initial code false) index entry)
      (fun entry state => state.stack.length ≤ entry.stack.length) (entryState initial code false) := by
  have hinitial' : (bodyOf hierarchy owner code false).Sums (entryState initial code false) 0
      (entryState initial code false) :=
    .of_gathers hinitial hpaths
      (FlowState.Gathers.const rfl : FlowState.Gathers (fun _ : Unit => False) _ _) fun _ => .start
  exact finished_of_run (invariant_sums hinitial hpaths hlabels hhandlers) hinitial' hrun

/-- An instruction runs from its entry as it runs on a path, and leaves an even
    stack that is as high; it passes that on. -/
theorem exists_last {index : Label} {state entry after : FlowState}
    (h : OnPath hierarchy owner code initial index state)
    (hentry : run.entryAt index = some entry) (hle : state.stack.length ≤ entry.stack.length)
    {instruction : Instruction}
    (hinstruction : (bodyOf hierarchy owner code false).instructions[index]? = some instruction)
    (hexecute : (bodyOf hierarchy owner code false).execute index instruction state = .ok after) :
    ∃ last edges, (bodyOf hierarchy owner code false).execute index instruction entry = .ok last ∧
      (bodyOf hierarchy owner code false).successors index instruction entry last = .ok edges ∧
      (∀ edge ∈ edges, run.Keeps (fun entry state => state.stack.length ≤ entry.stack.length) edge) ∧
      after.Even last ∧ after.stack.length ≤ last.stack.length := by
  have hfinished := sums_of_run hinitial hpaths hlabels hhandlers hrun
  obtain ⟨_, last, edges, hinstruction', hlast, hedges, hkeeps⟩ := hfinished.settled index entry hentry
  cases hinstruction.symm.trans hinstruction'
  obtain ⟨afters, hafters, hgathers⟩ := (hfinished.holds index entry hentry).execute hinitial hpaths
    (· = state) (fun _ _ heq => heq ▸ hle) hinstruction hlast
  have hafter := hafters ⟨state, h⟩
  rw [hexecute] at hafter
  obtain rfl := Except.ok.inj hafter
  exact ⟨last, edges, hlast, hedges, hkeeps, hgathers.even ⟨state, h⟩, hgathers.height _ rfl⟩

/-- An entry is as high as the paths to it. -/
theorem exists_entry (hnonempty : code.instructions ≠ []) {index : Label} {state : FlowState}
    (h : OnPath hierarchy owner code initial index state) :
    ∃ entry, run.entryAt index = some entry ∧ state.stack.length ≤ entry.stack.length := by
  induction h with
  | start =>
    refine (sums_of_run hinitial hpaths hlabels hhandlers hrun).start ?_
    simpa [bodyOf] using List.length_pos_of_ne_nil hnonempty
  | next hbefore hinstruction hexecute hends hlt ih =>
    obtain ⟨entry, hentry, hle⟩ := ih
    obtain ⟨last, edges, -, hedges, hkeeps, -, hheight⟩ :=
      exists_last hinitial hpaths hlabels hhandlers hrun hbefore hentry hle hinstruction hexecute
    obtain ⟨next, hnext, hkept⟩ := hkeeps _ (Body.mem_successors_of_next hedges hends hlt)
    exact ⟨next, hnext, Nat.le_trans hheight hkept⟩
  | branch hbefore hinstruction hexecute hedge ih =>
    obtain ⟨entry, hentry, hle⟩ := ih
    obtain ⟨last, edges, -, hedges, hkeeps, -, hheight⟩ :=
      exists_last hinitial hpaths hlabels hhandlers hrun hbefore hentry hle hinstruction hexecute
    obtain ⟨pass, hpass, heq, hbranch⟩ := Body.exists_pass_of_mem_branchEdges hedge
    obtain ⟨next, hnext, hkept⟩ := hkeeps _ (Body.mem_successors_of_branch hedges (hbranch last))
    refine ⟨next, hnext, Nat.le_trans ?_ hkept⟩
    rw [heq]
    rcases hpass with rfl | rfl
    · exact hheight
    · exact Nat.succ_le_succ hheight

/-- **The largest stack covers what instructions leave on all paths.** -/
theorem stackAfter_le_of_run (hnonempty : code.instructions ≠ []) {index : Label}
    {state after : FlowState} (h : OnPath hierarchy owner code initial index state)
    {instruction : Instruction}
    (hinstruction : (bodyOf hierarchy owner code false).instructions[index]? = some instruction)
    (hexecute : (bodyOf hierarchy owner code false).execute index instruction state = .ok after) :
    Body.stackAfter instruction after ≤ run.maxStack := by
  obtain ⟨entry, hentry, hle⟩ := exists_entry hinitial hpaths hlabels hhandlers hrun hnonempty h
  obtain ⟨last, _, hlast, -, -, heven, hheight⟩ :=
    exists_last hinitial hpaths hlabels hhandlers hrun h hentry hle hinstruction hexecute
  have htop := tops_of_run (invariant_loose hlabels initial)
    (FlowState.loose_entryState hinitial code) hrun hentry hinstruction hlast
  exact Nat.le_trans (Body.stackAfter_le heven hheight) htop

end

end Flow

/-- **The computed stack is enough for every path**, where the paths that meet
    have operands of two slots at the same places. -/
theorem stackSize_le_of_analyze {hierarchy : Hierarchy} {owner : String} {method : MethodRecord}
    {code : Code} {a : Analysis} {initial : List VerificationType} (hlabels : LabelsInRange code)
    (hhandlers : code.exceptionTable = [])
    (ha : analyze hierarchy owner method code false = .ok a)
    (hinitial : initialLocals owner method.access method.name method.descriptor = .ok initial)
    (hpaths : EvenPaths hierarchy owner code initial) {index : Label} {state : FlowState}
    (h : OnPath hierarchy owner code initial index state) :
    state.stackSize ≤ a.maxStack.toNat ∧ ∀ instruction after,
      code.instructions[index]? = some instruction →
      (bodyOf hierarchy owner code false).execute index instruction state = .ok after →
        Body.stackAfter instruction after ≤ a.maxStack.toNat := by
  obtain ⟨initial', measured, hinitial', hmeasured, -, hstack, rfl⟩ := analyze_eq_ok ha
  cases hinitial.symm.trans hinitial'
  have hstack : (UInt16.ofNat measured.1).toNat = measured.1 := by
    rw [UInt16.toNat_ofNat']; omega
  suffices hafters : ∀ {index state instruction after},
      OnPath hierarchy owner code initial index state →
      (bodyOf hierarchy owner code false).instructions[index]? = some instruction →
      (bodyOf hierarchy owner code false).execute index instruction state = .ok after →
        Body.stackAfter instruction after ≤ measured.1 by
    dsimp only
    rw [hstack]
    refine ⟨?_, fun instruction after hinstruction => hafters h (by simpa [bodyOf] using hinstruction)⟩
    cases h with
    | start => exact Nat.zero_le _
    | next hbefore hinstruction hexecute =>
      exact Nat.le_trans (le_foldl_max (.head _)) (hafters hbefore hinstruction hexecute)
    | branch hbefore hinstruction hexecute hedge =>
      have hle := hafters hbefore hinstruction hexecute
      exact Nat.le_trans (le_foldl_max (.tail _ (List.mem_map.mpr ⟨_, hedge, rfl⟩))) hle
  intro index state instruction after hpath hinstruction hexecute
  cases hmeasured with
  | empty hempty => simp [bodyOf, hempty] at hinstruction
  | sized _ hnonempty hrun =>
    exact stackAfter_le_of_run hinitial hpaths hlabels hhandlers hrun hnonempty hpath hinstruction
      hexecute
  | framed hframes => cases hframes

/-! ## Bodies with paths that meet -/

/-- A body that pushes a number on one of two paths, and a `long` on both. -/
def forking : Code where
  maxStack := 0
  maxLocals := 0
  instructions := [.simple 0x03, .jump 0x99 3, .simple 0x03, .simple 0x09, .simple Opcode.returnVoid]
  exceptionTable := []
  lineNumbers := none
  localVariables := none
  localVariableTypes := none
  frames := none
  visibleTypeAnnotations := none
  invisibleTypeAnnotations := none
  attributes := []

/-- A static method with that body. -/
def forkingMethod : MethodRecord := ⟨⟨0x0009⟩, "m", "()V", [], some forking, .absent, []⟩

/-- All states on the paths through it. -/
def forkingPlaces : List (Label × FlowState) :=
  [(0, []), (1, [.integer]), (2, []), (3, []), (3, [.integer]), (4, [.long]),
    (4, [.long, .integer])].map fun (index, stack) => (index, ⟨[], stack, true⟩)

theorem mem_forkingPlaces {index : Label} {state : FlowState}
    (h : OnPath .trivial "A" forking [] index state) : (index, state) ∈ forkingPlaces :=
  h.mem_of_closed (by decide) (by decide)

theorem evenPaths_forking : EvenPaths .trivial "A" forking [] where
  even index state other hstate hother := by
    have hlow : ∀ place ∈ forkingPlaces, place.2.stack.length ≤ 2 := by decide
    have heven : ∀ place ∈ forkingPlaces, ∀ other ∈ forkingPlaces, place.1 = other.1 →
        ∀ n < 2, (place.2.operand n).wide? = (other.2.operand n).wide? := by decide
    have hmem := mem_forkingPlaces hstate
    have hmem' := mem_forkingPlaces hother
    exact .of_lt (hlow _ hmem) (hlow _ hmem') (heven _ hmem _ hmem' rfl)
  suits index instruction state hinstruction _ := by
    have hmem : instruction ∈ forking.instructions := List.mem_of_getElem? hinstruction
    simp only [forking, List.mem_cons, List.not_mem_nil, or_false] at hmem
    rcases hmem with rfl | rfl | rfl | rfl | rfl <;> first | trivial | exact nofun
  classes := by
    refine ⟨Value.shallow_object (by decide), fun name hmem => ?_, fun member interface hmem => ?_⟩
    · simp [forking] at hmem
    · simp [forking] at hmem
  hierarchy := Hierarchy.isJoin_trivial.shallow

theorem labelsInRange_forking : LabelsInRange forking :=
  ⟨by decide, by decide⟩

theorem analyze_forking : ∃ a, analyze .trivial "A" forkingMethod forking false = .ok a ∧
    a.maxStack = 3 :=
  Result.exists_ok (by decide +kernel)

theorem initialLocals_forking : initialLocals "A" forkingMethod.access "m" "()V" = .ok [] := by
  obtain ⟨initial, hinitial, rfl⟩ : ∃ initial,
      initialLocals "A" forkingMethod.access "m" "()V" = .ok initial ∧ initial = [] :=
    Result.exists_ok (by decide +kernel)
  exact hinitial

/-- The larger of the stacks that meet counts for what follows. -/
theorem stackSize_le_of_analyze_forking :
    LabelsInRange forking ∧ forking.exceptionTable = [] ∧
      initialLocals "A" forkingMethod.access "m" "()V" = .ok [] ∧
      EvenPaths .trivial "A" forking [] ∧
      OnPath .trivial "A" forking [] 4 ⟨[], [.long, .integer], true⟩ ∧
      ∃ a, analyze .trivial "A" forkingMethod forking false = .ok a ∧ a.maxStack = 3 ∧
        FlowState.stackSize ⟨[], [.long, .integer], true⟩ ≤ a.maxStack.toNat := by
  have hpath : OnPath .trivial "A" forking [] 4 ⟨[], [.long, .integer], true⟩ := by
    have hone : OnPath .trivial "A" forking [] 1 ⟨[], [.integer], true⟩ :=
      .next .start rfl rfl rfl (by decide)
    have htwo : OnPath .trivial "A" forking [] 2 ⟨[], [], true⟩ :=
      .next hone rfl rfl rfl (by decide)
    exact .next (.next htwo rfl rfl rfl (by decide)) rfl rfl rfl (by decide)
  obtain ⟨a, ha, hstack⟩ := analyze_forking
  refine ⟨labelsInRange_forking, rfl, initialLocals_forking, evenPaths_forking, hpath, a, ha,
    hstack, ?_⟩
  exact (stackSize_le_of_analyze labelsInRange_forking rfl ha initialLocals_forking
    evenPaths_forking hpath).1

/-- A body that pushes a `long` on one of two paths and a number on the other. -/
def mixing : Code :=
  { forking with
    instructions := [.simple 0x03, .jump 0x99 4, .simple 0x09, .jump Opcode.goto 5, .simple 0x03,
      .simple 0x03, .simple Opcode.returnVoid] }

/-- **Where the paths are not even, the computed stack may be too small**: the
    merged operand takes one slot, and the `long` was two. -/
theorem stackSize_mixing : ∃ a, analyze .trivial "A" forkingMethod mixing false = .ok a ∧
    OnPath .trivial "A" mixing [] 6 ⟨[], [.integer, .long], true⟩ ∧
    a.maxStack.toNat < FlowState.stackSize ⟨[], [.integer, .long], true⟩ := by
  obtain ⟨a, ha, hstack⟩ : ∃ a, analyze .trivial "A" forkingMethod mixing false = .ok a ∧
      a.maxStack = 2 :=
    Result.exists_ok (by decide +kernel)
  have hpath : OnPath .trivial "A" mixing [] 6 ⟨[], [.integer, .long], true⟩ := by
    have hone : OnPath .trivial "A" mixing [] 1 ⟨[], [.integer], true⟩ :=
      .next .start rfl rfl rfl (by decide)
    have htwo : OnPath .trivial "A" mixing [] 2 ⟨[], [], true⟩ :=
      .next hone rfl rfl rfl (by decide)
    have hthree : OnPath .trivial "A" mixing [] 3 ⟨[], [.long], true⟩ :=
      .next htwo rfl rfl rfl (by decide)
    have hfive : OnPath .trivial "A" mixing [] 5 ⟨[], [.long], true⟩ :=
      .branch hthree rfl rfl (.head _)
    exact .next hfive rfl rfl rfl (by decide)
  refine ⟨a, ha, hpath, ?_⟩
  rw [hstack]
  decide

end JvmClass
