/-
  The slots behind a `long` or a `double`.

  * `Instruction.receiver?` is what an instruction calls a constructor on;
    `paired_execute_iff`: in a strict state where `top` follows every value of
    two slots, an instruction changes that exactly if it calls a constructor on
    `top` while there is such a value;
  * `Run.Filled`: behind values of two slots there is `top` or an instance of a
    class, and `top` alone if no constructor is called on `top`; visits keep
    that, and so it holds of every `Run.Reached`;
  * `initialSlots_frameLocals`: a frame shows all locals that `top` follows
    where it should.
-/
import JvmClass.Proofs.Flow.Frames
import JvmClass.Proofs.Flow.Join
import JvmClass.Proofs.Flow.Locals
import JvmClass.Proofs.Flow.Slots
import JvmClass.Proofs.Flow.Visits
import Mathlib.Data.List.TakeWhile

namespace JvmClass

/-- How many operands lie on top of what the instruction calls a constructor on,
    if it does so. -/
def Instruction.arguments? : Instruction → Option Nat
  | .method opcode member _ =>
    if opcode = Opcode.invokespecial ∧ member.name = "<init>" then
      (MethodType.ofDescriptor member.descriptor).toOption.map (·.parameters.length)
    else none
  | _ => none

/-- What the instruction calls a constructor on, with the operands `stack`. -/
def Instruction.receiver? (i : Instruction) (stack : List Value) : Option Value :=
  i.arguments?.bind (stack[·]?)

/-- What may follow values of two slots: nothing else than `top`, or an instance
    of a class that took its place. -/
def Value.IsFiller (v : Value) : Prop := v = .top ∨ ∃ name, v = .object name

/-! ## Calls of constructors -/

namespace FlowStep

theorem popMany_eq_ok {n : Nat} {locals stack : List Value} {t : FlowState} :
    popMany n ⟨locals, stack, false⟩ = .ok ((), t) ↔
      n ≤ stack.length ∧ t = ⟨locals, stack.drop n, false⟩ := by
  induction n generalizing stack with
  | zero =>
    constructor
    · intro h
      cases h
      exact ⟨Nat.zero_le _, rfl⟩
    · rintro ⟨-, rfl⟩
      rfl
  | succ n ih =>
    rw [popMany, bind_eq_ok]
    constructor
    · rintro ⟨value, u, hpop, h⟩
      obtain ⟨rest, rfl, rfl⟩ := pop_eq_ok.mp hpop
      obtain ⟨hle, rfl⟩ := ih.mp h
      exact ⟨Nat.succ_le_succ hle, rfl⟩
    · rintro ⟨hle, rfl⟩
      cases stack with
      | nil => exact absurd hle (Nat.not_succ_le_zero n)
      | cons value rest =>
        exact ⟨value, _, pop_eq_ok.mpr ⟨rest, rfl, rfl⟩, ih.mpr ⟨Nat.le_of_succ_le_succ hle, rfl⟩⟩

theorem liftM_eq_ok {α : Type} {result : Except Invalid α} {s t : FlowState} {a : α} :
    (liftM result : FlowStep α) s = .ok (a, t) ↔ result = .ok a ∧ t = s := by
  cases result with
  | ok b =>
    change Except.ok (b, s) = .ok (a, t) ↔ _
    simp only [Except.ok.injEq, Prod.mk.injEq, eq_comm]
  | error cause =>
    change Except.error cause = .ok (a, t) ↔ _
    simp

theorem locals_pushResult {type : MethodType} {s t : FlowState}
    (h : Flow.pushResult type s = .ok ((), t)) : t.locals = s.locals := by
  cases hresult : type.result with
  | some result => simp only [Flow.pushResult, hresult] at h; cases h; rfl
  | none => simp only [Flow.pushResult, hresult] at h; cases h; rfl

end FlowStep

namespace Flow

open FlowStep

variable {owner : String} {instructions : Array Instruction} {index : Label} {i : Instruction}
  {before after : FlowState}

/-- A call of a constructor replaces its receiver, which takes one slot, by an
    instance of a class. -/
theorem locals_of_constructs (hstrict : before.lenient = false) (hi : i.Constructs)
    (h : execute owner instructions index i before = .ok ((), after)) :
    ∃ receiver name, i.receiver? before.stack = some receiver ∧ receiver.isWide = false ∧
      after.locals = (before.replaceAll receiver (.object name)).locals := by
  obtain ⟨member, interface, rfl, hname⟩ := hi
  obtain ⟨locals, stack, lenient⟩ := before
  obtain rfl : lenient = false := hstrict
  obtain ⟨type, s, htype, h⟩ := bind_eq_ok.mp h
  cases hdescriptor : MethodType.ofDescriptor member.descriptor with
  | error cause =>
    rw [hdescriptor] at htype
    exact nomatch htype
  | ok found =>
    rw [hdescriptor] at htype
    cases htype
    obtain ⟨⟨⟩, s, harguments, h⟩ := bind_eq_ok.mp h
    obtain ⟨-, rfl⟩ := popMany_eq_ok.mp harguments
    rw [if_neg (by decide)] at h
    obtain ⟨receiver, s, hreceiver, h⟩ := bind_eq_ok.mp h
    obtain ⟨rest, hrest, hnarrow, rfl⟩ := popOne_eq_ok.mp hreceiver
    rw [if_pos ⟨rfl, hname⟩] at h
    obtain ⟨left, s, hleft, h⟩ := bind_eq_ok.mp h
    obtain ⟨hconstructed, rfl⟩ := liftM_eq_ok.mp hleft
    obtain ⟨name, rfl⟩ := object_of_constructed hconstructed
    obtain ⟨⟨⟩, s, hreplace, h⟩ := bind_eq_ok.mp h
    cases hreplace
    refine ⟨receiver, name, ?_, hnarrow, by rw [locals_pushResult h]; rfl⟩
    have hget : stack[type.parameters.length]? = some receiver := by
      rw [← List.head?_drop, hrest, List.head?_cons]
    rw [Instruction.receiver?, Instruction.arguments?, if_pos ⟨rfl, hname⟩, hdescriptor]
    exact hget

theorem constructs_of_receiver? {stack : List Value} {receiver : Value}
    (h : i.receiver? stack = some receiver) : i.Constructs := by
  obtain ⟨count, hcount, -⟩ := Option.bind_eq_some_iff.mp h
  unfold Instruction.arguments? at hcount
  split at hcount
  next opcode member interface =>
    split at hcount
    next hinit => exact ⟨member, interface, by rw [hinit.1], hinit.2⟩
    next => exact nomatch hcount
  next => exact nomatch hcount

/-! ## What follows values of two slots -/

variable {count : Nat}

theorem storeInvariant_followed (count : Nat) {P : Value → Prop} (htop : P .top) :
    StoreInvariant (fun s => s.Boxed count ∧ Value.Followed P s.locals) fun _ => True where
  strict _ h := h.1.strict
  locals _ _ _ _ := trivial
  operands _ _ _ _ := trivial
  plain _ _ := trivial
  stack s stack h hstack := ⟨(FlowState.strictInvariant_boxed count).stack s stack h.1 hstack, h.2⟩
  store s index value h hvalue hfits :=
    ⟨(FlowState.strictInvariant_boxed count).store s index value h.1 hvalue hfits,
      FlowState.followed_storeLocal htop h.2 hfits⟩

/-- What follows a local variable of two slots stays what it may be over every
    instruction, where instances of classes may follow it. -/
theorem followed_execute {P : Value → Prop} (htop : P .top) (hobject : ∀ name, P (.object name))
    (hboxed : before.Boxed count) (hbefore : Value.Followed P before.locals)
    (h : execute owner instructions index i before = .ok ((), after)) :
    Value.Followed P after.locals := by
  have hkeeps := keeps_execute
    { storeInvariant_followed count htop with
      replace := fun s before name hs hnarrow =>
        ⟨(FlowState.strictInvariant_boxed count).replace s before name hs.1 hnarrow,
          FlowState.followed_replaceAll hnarrow (fun _ _ _ => hobject name) hs.2⟩ }
    owner instructions index i fun _ _ => trivial
  exact (hkeeps before _ _ ⟨hboxed, hbefore⟩ h).1.2

/-- **Where `top` follows all values of two slots, it does so after an
    instruction**, unless that calls a constructor on `top` while there are such
    values. -/
theorem paired_execute_iff (hboxed : before.Boxed count)
    (hbefore : Value.Followed (· = .top) before.locals)
    (h : execute owner instructions index i before = .ok ((), after)) :
    Value.Followed (· = .top) after.locals ↔
      ¬ (i.receiver? before.stack = some .top ∧ ∃ v ∈ before.locals, v.isWide = true) := by
  by_cases hi : i.Constructs
  · obtain ⟨receiver, name, hreceiver, hnarrow, hlocals⟩ :=
      locals_of_constructs hboxed.strict hi h
    rw [hlocals, hreceiver, Option.some.injEq]
    constructor
    · rintro hafter ⟨rfl, v, hv, hwide⟩
      obtain ⟨j, hlt, rfl⟩ := List.getElem_of_mem hv
      have hkept : (before.replaceAll .top (.object name)).locals[j]? = some before.locals[j] := by
        have hne : before.locals[j] ≠ .top := by
          intro heq
          rw [heq] at hwide
          exact Bool.false_ne_true hwide
        simp only [FlowState.replaceAll, List.getElem?_map, List.getElem?_eq_getElem hlt,
          Option.map_some, if_neg hne]
      obtain ⟨next, hnext, rfl⟩ := hbefore j _ (List.getElem?_eq_getElem hlt) hwide
      obtain ⟨next, hnext', rfl⟩ := hafter j _ hkept hwide
      simp [FlowState.replaceAll, hnext] at hnext'
    · intro hother
      by_cases hreceiver : receiver = .top
      · intro j v hv hwide
        simp only [FlowState.replaceAll, List.getElem?_map, Option.map_eq_some_iff] at hv
        obtain ⟨w, hw, rfl⟩ := hv
        refine absurd ⟨hreceiver, w, List.mem_of_getElem? hw, ?_⟩ hother
        split at hwide
        next => exact absurd hwide Bool.false_ne_true
        next => exact hwide
      · refine FlowState.followed_replaceAll hnarrow ?_ hbefore
        rintro v rfl hv
        exact absurd hv.symm hreceiver
  · have hkeeps := keeps_execute_of_not_constructs
      (storeInvariant_followed count (P := (· = .top)) rfl) owner instructions index hi
      fun _ _ => trivial
    refine iff_of_true (hkeeps before _ _ ⟨hboxed, hbefore⟩ h).1.2 ?_
    rintro ⟨hreceiver, -⟩
    exact hi (constructs_of_receiver? hreceiver)

end Flow

namespace FlowState

open JvmClass.Flow

/-- What a strict state has behind its values of two slots; `top` alone unless a
    constructor is `misused`. -/
structure Fills (count : Nat) (misused : Prop) (state : FlowState) : Prop where
  boxed : state.Boxed count
  filler : Value.Followed Value.IsFiller state.locals
  top : ¬ misused → Value.Followed (· = .top) state.locals

/-- Merging keeps `top` and makes instances of classes of such instances. -/
theorem isFiller_mergeValue {hierarchy : Hierarchy} (v w : Value) (h : v.IsFiller) :
    (mergeValue hierarchy v w).IsFiller := by
  rcases h with rfl | ⟨name, rfl⟩
  · exact .inl (top_mergeValue w)
  · unfold mergeValue
    split
    next => exact .inr ⟨name, rfl⟩
    next =>
      split
      next => exact .inr ⟨_, rfl⟩
      next => exact .inr ⟨_, rfl⟩
      next => split <;> exact .inr ⟨_, rfl⟩
      next => exact .inl rfl

variable {count : Nat} {misused : Prop} {state : FlowState}

/-- A merge keeps what an entry has behind its values of two slots. -/
theorem Fills.of_mergeState {hierarchy : Hierarchy} {incoming merged : FlowState}
    (h : state.Fills count misused) (hmerge : mergeState hierarchy state incoming = .ok merged) :
    merged.Fills count misused := by
  have hboxed := h.boxed.of_mergeState hmerge
  obtain ⟨-, -, rfl⟩ := mergeState_eq_ok h.boxed.strict hmerge
  refine ⟨hboxed, h.filler.mergeValues isFiller_mergeValue _, fun hnone => ?_⟩
  refine (h.top hnone).mergeValues ?_ _
  rintro v w rfl
  exact top_mergeValue w

/-- Once a constructor is misused, less is known. -/
theorem Fills.mono {later : Prop} (h : state.Fills count misused) (hmono : misused → later) :
    state.Fills count later :=
  ⟨h.boxed, h.filler, fun hnone => h.top fun hmisused => hnone (hmono hmisused)⟩

end FlowState

namespace Flow

open FlowStep

variable {count : Nat}

/-! ## Runs -/

namespace Run

/-- An instruction calls a constructor on `top`. -/
def Misuses (body : Body) (run : Run) : Prop :=
  ∃ i before instruction, run.entryAt i = some before ∧
    body.instructions[i]? = some instruction ∧ instruction.receiver? before.stack = some .top

/-- What is known of all entries of a run. -/
def Filled (body : Body) (count : Nat) (run : Run) : Prop :=
  ∀ i state, run.entryAt i = some state → state.Fills count (run.Misuses body)

variable {body : Body} {run next : Run} {state : FlowState}

/-- An entry after a pass is one from before or the one that was merged. -/
theorem entryAt_of_pass {hierarchy : Hierarchy} {target : Label} {incoming : FlowState}
    (h : Run.pass hierarchy run (target, incoming) = .ok next) {i : Label}
    (hstate : next.entryAt i = some state) :
    run.entryAt i = some state ∨
      i = target ∧ ∃ news, mergeEntry hierarchy (run.entryAt target) incoming = .ok (state, news) := by
  obtain ⟨merged, news, hmerge, ⟨-, rfl⟩ | ⟨-, -, hentries, -⟩⟩ := pass_cases h
  · exact .inl hstate
  · by_cases hlt : target < run.entries.size
    · rw [entryAt_set hlt hentries] at hstate
      split at hstate
      next heq => cases hstate; exact .inr ⟨heq.symm, news, hmerge⟩
      next => exact .inl hstate
    · rw [entryAt, hentries, Array.setIfInBounds_eq_of_size_le (Nat.not_lt.mp hlt)] at hstate
      exact .inl hstate

theorem exists_entryAt_of_pass {hierarchy : Hierarchy} {target : Label} {incoming : FlowState}
    (h : Run.pass hierarchy run (target, incoming) = .ok next) {i : Label}
    (hstate : run.entryAt i = some state) :
    ∃ after, next.entryAt i = some after ∧
      (after = state ∨ mergeState hierarchy state incoming = .ok after) := by
  obtain ⟨merged, news, hmerge, ⟨-, rfl⟩ | ⟨-, -, hentries, -⟩⟩ := pass_cases h
  · exact ⟨state, hstate, .inl rfl⟩
  · by_cases heq : target = i
    · subst heq
      obtain ⟨hnone, -⟩ | ⟨existing, hsome, hmerged, -⟩ := mergeEntry_eq_ok hmerge
      · exact nomatch hstate.symm.trans hnone
      · cases hstate.symm.trans hsome
        refine ⟨merged, ?_, .inr hmerged⟩
        rw [entryAt_set (run.lt_of_entryAt hstate) hentries, if_pos rfl]
    · refine ⟨state, ?_, .inl rfl⟩
      rwa [entryAt, hentries, Array.getElem?_setIfInBounds_ne heq]

/-- A constructor that is called on `top` still is after a pass, since merging
    keeps `top`. -/
theorem Misuses.pass (hrun : run.Filled body count) (h : run.Misuses body)
    {edge : Label × FlowState} (hpass : Run.pass body.hierarchy run edge = .ok next) :
    next.Misuses body := by
  obtain ⟨i, before, instruction, hbefore, hinstruction, hreceiver⟩ := h
  obtain ⟨after, hafter, rfl | hmerge⟩ := exists_entryAt_of_pass hpass hbefore
  · exact ⟨i, after, instruction, hafter, hinstruction, hreceiver⟩
  · refine ⟨i, after, instruction, hafter, hinstruction, ?_⟩
    obtain ⟨count, hcount, hget⟩ := Option.bind_eq_some_iff.mp hreceiver
    obtain ⟨-, -, rfl⟩ := mergeState_eq_ok (hrun i before hbefore).boxed.strict hmerge
    refine Option.bind_eq_some_iff.mpr ⟨count, hcount, ?_⟩
    have hkept : List.Forall₂ (fun v m : Value => v = .top → m = .top) before.stack
        (mergeValues body.hierarchy before.stack edge.2.stack) := by
      refine forall₂_mergeValues (fun _ => id) ?_ _ _
      rintro v w rfl
      exact top_mergeValue w
    obtain ⟨hlength, hkept⟩ := List.forall₂_iff_get.mp hkept
    obtain ⟨hlt, htop⟩ := List.getElem?_eq_some_iff.mp hget
    rw [List.getElem?_eq_getElem (hlength ▸ hlt)]
    exact congrArg some (hkept count hlt (hlength ▸ hlt) htop)

theorem Filled.pass (hrun : run.Filled body count) {edge : Label × FlowState}
    (hedge : edge.2.Fills count (run.Misuses body)) (h : Run.pass body.hierarchy run edge = .ok next) :
    next.Filled body count := by
  have hmono (hmisuses : run.Misuses body) : next.Misuses body := hmisuses.pass hrun h
  intro i state hstate
  rcases entryAt_of_pass h hstate with hsame | ⟨-, news, hmerge⟩
  · exact (hrun i state hsame).mono hmono
  · rcases mergeEntry_eq_ok hmerge with ⟨-, rfl, -⟩ | ⟨existing, hsome, hmerged, -⟩
    · exact hedge.mono hmono
    · exact ((hrun _ existing hsome).of_mergeState hmerged).mono hmono

theorem Filled.passes {edges : List (Label × FlowState)} (hrun : run.Filled body count)
    (hedges : ∀ edge ∈ edges, edge.2.Fills count (run.Misuses body))
    (h : edges.foldlM (Run.pass body.hierarchy) run = .ok next) : next.Filled body count := by
  induction edges generalizing run with
  | nil =>
    cases h
    exact hrun
  | cons edge edges ih =>
    obtain ⟨middle, hpass, hrest⟩ := Result.bind_eq_ok.mp h
    obtain ⟨hedge, hedges⟩ := List.forall_mem_cons.mp hedges
    refine ih (hrun.pass hedge hpass) (fun edge hmem => ?_) hrest
    exact (hedges edge hmem).mono fun hmisuses => hmisuses.pass hrun hpass

theorem Filled.of_mem_successors (hrun : run.Filled body count) {index : Label}
    {instruction : Instruction} {before after : FlowState} {edges : List (Label × FlowState)}
    (hentry : run.entryAt index = some before)
    (hinstruction : body.instructions[index]? = some instruction)
    (hexecute : body.execute index instruction before = .ok after)
    (hedges : body.successors index instruction before after = .ok edges)
    {edge : Label × FlowState} (hmem : edge ∈ edges) : edge.2.Fills count (run.Misuses body) := by
  have hbefore := hrun index before hentry
  have hboxed := Body.boxed_execute hbefore.boxed hexecute
  have hrun := Body.execute_eq_ok.mp hexecute
  have hafter : after.Fills count (run.Misuses body) := by
    refine ⟨hboxed, ?_, fun hnone => ?_⟩
    · exact followed_execute (.inl rfl) (fun name => .inr ⟨name, rfl⟩) hbefore.boxed hbefore.filler
        hrun
    · refine (paired_execute_iff hbefore.boxed (hbefore.top hnone) hrun).mpr ?_
      rintro ⟨hreceiver, -⟩
      exact hnone ⟨index, before, instruction, hentry, hinstruction, hreceiver⟩
  have hlocals := Body.locals_of_mem_successors hedges hmem
  have hedge := Body.boxed_successors hbefore.boxed hboxed hedges hmem
  rcases hlocals with hsame | hsame
  · exact ⟨hedge, hsame ▸ hbefore.filler, fun hnone => hsame ▸ hbefore.top hnone⟩
  · exact ⟨hedge, hsame ▸ hafter.filler, fun hnone => hsame ▸ hafter.top hnone⟩

/-- **A visit keeps what entries have behind values of two slots.** -/
theorem Filled.visit (hrun : run.Filled body count) {index : Label} {queue : Queue}
    (h : Run.visit body index { run with queue := queue } = .ok next) : next.Filled body count := by
  rcases visit_cases h with
    ⟨before, instruction, after, edges, hbefore, hinstruction, hexecute, hedges, hpasses⟩ | ⟨-, rfl⟩
  · have htaken : Filled body count ⟨run.entries, queue, run.queued.setIfInBounds index false,
        max run.maxStack (Body.stackAfter instruction after)⟩ := hrun
    refine htaken.passes (fun edge hmem => ?_) hpasses
    exact hrun.of_mem_successors hbefore hinstruction hexecute hedges hmem
  · exact hrun

theorem Filled.visits {taken : List Label} (hvisits : Visits body run taken next)
    (hrun : run.Filled body count) : next.Filled body count := by
  induction hvisits with
  | nil => exact hrun
  | cons _ hvisit _ ih => exact ih (hrun.visit hvisit)

/-- A run that an interpretation comes to, between two visits or in the middle of
    one, when some of the successors were entered. -/
inductive Reached (body : Body) (start : Run) : Run → Prop
  | visits {taken run} (hvisits : Visits body start taken run) : Reached body start run
  | passes {taken run next index queue before instruction after passed left}
      (hvisits : Visits body start taken run) (hpop : run.queue.pop? = some (index, queue))
      (hbefore : run.entryAt index = some before)
      (hinstruction : body.instructions[index]? = some instruction)
      (hexecute : body.execute index instruction before = .ok after)
      (hedges : body.successors index instruction before after = .ok (passed ++ left))
      (hpasses : passed.foldlM (pass body.hierarchy) ⟨run.entries, queue,
        run.queued.setIfInBounds index false, max run.maxStack (Body.stackAfter instruction after)⟩ =
          .ok next) : Reached body start next

/-- What entries have behind values of two slots is kept all the time. -/
theorem Filled.reached (hrun : run.Filled body count) (h : Reached body run next) :
    next.Filled body count := by
  cases h with
  | visits hvisits => exact hrun.visits hvisits
  | passes hvisits _ hbefore hinstruction hexecute hedges hpasses =>
    have hmiddle := hrun.visits hvisits
    refine Filled.passes ?_ (fun edge hmem => ?_) hpasses
    · exact hmiddle
    exact hmiddle.of_mem_successors hbefore hinstruction hexecute hedges
      (List.mem_append_left _ hmem)

/-- An interpretation starts with `top` behind values of two slots. -/
theorem filled_start (body : Body) (initial : List VerificationType) (code : Code) :
    (start body.instructions.size (entryState initial code true)).Filled body
      (localsOf initial code) := by
  intro i state hstate
  rw [entryAt_start] at hstate
  split at hstate
  next =>
    cases hstate
    have htop := FlowState.followed_initialSlots (localsOf initial code) initial
    exact ⟨FlowState.boxed_entryState initial code, htop.mono fun _ => .inl, fun _ => htop⟩
  next => exact nomatch hstate

end Run

end Flow

/-! ## Frames -/

namespace FlowState

open JvmClass.Flow

/-- The slots of types, `top` behind those of two slots. -/
def spread (types : List VerificationType) : List Value :=
  types.flatMap fun type => if type.isWide then [.known type, .top] else [.known type]

theorem initialSlots_eq (count : Nat) (types : List VerificationType) :
    initialSlots count types =
      spread types ++ List.replicate (count - (spread types).length) .top := rfl

theorem spread_append (front back : List VerificationType) :
    spread (front ++ back) = spread front ++ spread back := List.flatMap_append

theorem spread_of_wide {value : Value} (h : value.isWide = true) :
    spread [value.verificationType] = [.known value.verificationType, .top] := by
  cases value with
  | known type => simp only [spread, List.flatMap_cons, List.flatMap_nil, List.append_nil]; exact if_pos h
  | returnAddress => exact nomatch h

theorem spread_of_narrow {value : Value} (h : value.isWide = false) :
    spread [value.verificationType] = [.known value.verificationType] := by
  cases value with
  | known type =>
    simp only [spread, List.flatMap_cons, List.flatMap_nil, List.append_nil]
    exact if_neg (Bool.eq_false_iff.mp h)
  | returnAddress => rfl

theorem spread_replicate_top (n : Nat) :
    spread (List.replicate n .top) = List.replicate n .top := by
  induction n with
  | zero => rfl
  | succ n ih =>
    rw [List.replicate_succ, List.replicate_succ, ← List.singleton_append, spread_append, ih]
    rfl

/-- What a frame shows, written out slot by slot, are the locals. -/
theorem spread_frameLocalsRev {locals : List Value} (h : Value.Followed (· = .top) locals)
    (done : List VerificationType) :
    spread (frameLocalsRev done locals).reverse =
      spread done.reverse ++ locals.map fun v => .known v.verificationType := by
  induction done, locals using frameLocalsRev.induct with
  | case1 done => simp [frameLocalsRev]
  | case2 done value =>
    have hnarrow : value.isWide = false := by
      refine Bool.eq_false_iff.mpr fun hwide => ?_
      obtain ⟨next, hnext, -⟩ := h 0 value rfl hwide
      cases hnext
    rw [frameLocalsRev, List.reverse_cons, spread_append, spread_of_narrow hnarrow]
    rfl
  | case3 done value next rest hwide ih =>
    obtain ⟨_, hnext, rfl⟩ := h 0 value rfl hwide
    cases hnext
    rw [frameLocalsRev, if_pos hwide, ih fun i v => h (i + 2) v, List.reverse_cons, spread_append,
      spread_of_wide hwide, List.append_assoc]
    rfl
  | case4 done value next rest hnarrow ih =>
    rw [frameLocalsRev, if_neg hnarrow, ih fun i v => h (i + 1) v, List.reverse_cons, spread_append,
      spread_of_narrow (Bool.eq_false_iff.mpr hnarrow), List.append_assoc]
    rfl

/-- **A frame shows all locals** that `top` follows where it should: they are read
    again from it. -/
theorem initialSlots_frameLocals {locals : List Value} (h : Value.Followed (· = .top) locals) :
    initialSlots locals.length (frameLocals locals) =
      locals.map fun v => .known v.verificationType := by
  -- `top` at the end is left out of the frame, and filled up again.
  let tops := (frameLocalsRev [] locals).takeWhile (· == .top)
  have htops : tops.reverse = List.replicate tops.length .top := by
    refine List.eq_replicate_iff.mpr ⟨List.length_reverse, fun type htype => ?_⟩
    simpa using List.mem_takeWhile_imp (List.mem_reverse.mp htype)
  have hspread : spread (frameLocals locals) ++ List.replicate tops.length .top =
      locals.map fun v => .known v.verificationType := by
    calc spread (frameLocals locals) ++ List.replicate tops.length .top
        = spread (frameLocals locals) ++ spread tops.reverse := by
          rw [htops, spread_replicate_top]
      _ = spread (frameLocalsRev [] locals).reverse := by
          rw [frameLocals, ← spread_append, ← List.reverse_append, List.takeWhile_append_dropWhile]
      _ = _ := spread_frameLocalsRev h []
  have hlength := congrArg List.length hspread
  rw [List.length_append, List.length_replicate, List.length_map] at hlength
  rw [initialSlots_eq, ← hspread, ← hlength, Nat.add_sub_cancel_left]

end FlowState

open JvmClass.Flow

/-- **Slots stay paired while frames are computed, unless a constructor is called
    on `top`.**  All entries that are reached have as many slots as are counted
    for the locals, and behind a `long` or a `double` there is nothing but
    `top`, or an instance of a class.  If no instruction that was reached calls a
    constructor on `top`, it is `top`, and frames show all locals. -/
theorem slots_of_reached {hierarchy : Hierarchy} {owner : String} {method : MethodRecord}
    {code : Code} {initial : List VerificationType} {run : Run} {label : Label} {state : FlowState}
    (hinitial : initialLocals owner method.access method.name method.descriptor = .ok initial)
    (hrun : Run.Reached (bodyOf hierarchy owner code true)
      (.start code.instructions.length (entryState initial code true)) run)
    (hstate : run.entryAt label = some state) :
    (state.locals.length = localsOf initial code ∧
      ∀ a, analyze hierarchy owner method code true = .ok a →
        a.maxLocals.toNat = state.locals.length) ∧
    Value.Followed (fun v => v = .top ∨ ∃ name, v = .object name) state.locals ∧
    (¬ run.Misuses (bodyOf hierarchy owner code true) →
      Value.Followed (· = .top) state.locals ∧
      initialSlots state.locals.length (state.frame label).locals =
        state.locals.map fun v => .known v.verificationType) := by
  have hstart := Run.filled_start (bodyOf hierarchy owner code true) initial code
  have hfills := hstart.reached hrun label state hstate
  refine ⟨⟨hfills.boxed.length, fun a ha => ?_⟩, hfills.filler, fun hnone => ?_⟩
  · obtain ⟨_, measured, hinitial', -, hlocals, -, rfl⟩ := analyze_eq_ok ha
    cases hinitial.symm.trans hinitial'
    rw [hfills.boxed.length]
    exact UInt16.toNat_ofNat_of_lt' (Nat.lt_succ_of_le hlocals)
  · exact ⟨hfills.top hnone, FlowState.initialSlots_frameLocals (hfills.top hnone)⟩

/-- A body that makes an object. -/
def constructing : Code := { looping with
  instructions := [.type Opcode.new "B", .simple 0x59,
    .method Opcode.invokespecial ⟨"B", "<init>", "()V"⟩ false, .simple 0x57,
    .simple Opcode.returnVoid]
  exceptionTable := [] }

/-- A static method with that body and a `long` as its parameter. -/
def constructingMethod : MethodRecord :=
  ⟨⟨0x0009⟩, "m", "(J)V", [], some constructing, .absent, []⟩

/-- The constructor is called on the new object, and behind the `long` stays
    `top`. -/
theorem slots_of_reached_constructing :
    ∃ run state, Run.Reached (bodyOf .trivial "A" constructing true)
        (.start 5 (entryState [.long] constructing true)) run ∧
      run.entryAt 4 = some state ∧ ¬ run.Misuses (bodyOf .trivial "A" constructing true) ∧
      state.locals.length = 2 ∧ Value.Followed (· = .top) state.locals := by
  obtain ⟨_, hinitial, rfl⟩ : ∃ initial, initialLocals "A" constructingMethod.access
      constructingMethod.name constructingMethod.descriptor = .ok initial ∧ initial = [.long] :=
    Result.exists_ok (by decide +kernel)
  obtain ⟨run, hrun, hsize, hstate, hreceivers⟩ : ∃ run,
      Flow.run (bodyOf .trivial "A" constructing true) (entryState [.long] constructing true) =
        .ok run ∧ run.entries.size = 5 ∧ (run.entryAt 4).isSome = true ∧
      ∀ i ∈ List.range 5, ((run.entryAt i).all fun before =>
        constructing.instructions[i]?.all fun instruction =>
          instruction.receiver? before.stack != some .top) = true :=
    Result.exists_ok (by decide +kernel)
  obtain ⟨taken, hvisits⟩ := Run.visits_of_loop hrun
  obtain ⟨state, hstate⟩ := Option.isSome_iff_exists.mp hstate
  have hnone : ¬ run.Misuses (bodyOf .trivial "A" constructing true) := by
    rintro ⟨i, before, instruction, hbefore, hinstruction, htop⟩
    have hreceiver := hreceivers i (List.mem_range.mpr (hsize ▸ run.lt_of_entryAt hbefore))
    have hget : constructing.instructions[i]? = some instruction := by
      simpa [bodyOf] using hinstruction
    rw [hbefore, hget, Option.all_some, Option.all_some, htop] at hreceiver
    exact Bool.false_ne_true hreceiver
  obtain ⟨⟨hlength, -⟩, -, htop⟩ := slots_of_reached hinitial (.visits hvisits) hstate
  exact ⟨run, state, .visits hvisits, hstate, hnone, hlength, (htop hnone).1⟩

end JvmClass
