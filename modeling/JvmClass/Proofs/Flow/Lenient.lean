/-
  What instructions fail for in lenient states.

  * `FlowState.Loose` states are lenient, with a fixed number of slots, and
    their objects that are not initialized come from `new` instructions;
  * `tries_execute`: in such a state an instruction fails for its own faults
    alone, if it is not `aaload`.
-/
import JvmClass.Flow.Analysis
import JvmClass.Proofs.Flow.Locals
import JvmClass.Proofs.Flow.Reachable

namespace JvmClass

open JvmClass.Flow

/-! ## Lenient states -/

/-- An object that is not initialized comes from a `new`. -/
def Value.Named (instructions : Array Instruction) (value : Value) : Prop :=
  ∀ label, value = .uninitialized label →
    ∃ name, instructions[label]? = some (.type Opcode.new name)

theorem Value.Plain.named {instructions : Array Instruction} {value : Value} (h : value.Plain) :
    value.Named instructions :=
  fun label heq => absurd heq (h label)

theorem Value.Named.mergeValue {instructions : Array Instruction} {hierarchy : Hierarchy}
    (v w : Value) (h : v.Named instructions) :
    (Flow.mergeValue hierarchy v w).Named instructions := by
  rcases mergeValue_cases hierarchy v w with heq | hplain
  · rw [heq]
    exact h
  · exact hplain.named

/-- A lenient state of `count` slots, whose objects that are not initialized
    come from `new` instructions. -/
structure FlowState.Loose (instructions : Array Instruction) (count : Nat) (state : FlowState) :
    Prop where
  lenient : state.lenient = true
  length : state.locals.length = count
  locals : ∀ v ∈ state.locals, v.Named instructions
  stack : ∀ v ∈ state.stack, v.Named instructions

namespace FlowState

variable {instructions : Array Instruction} {count : Nat}

theorem Loose.of_mergeState {hierarchy : Hierarchy} {existing incoming merged : FlowState}
    (hexisting : existing.Loose instructions count) (hincoming : incoming.Loose instructions count)
    (h : mergeState hierarchy existing incoming = .ok merged) :
    merged.Loose instructions count := by
  have hvalue (a b : Value) (ha : a.Named instructions) :
      (mergeValue hierarchy a b).Named instructions :=
    ha.mergeValue a b
  rw [mergeState_of_lenient hexisting.lenient] at h
  cases h
  split
  next =>
    refine ⟨hexisting.lenient, ?_, forall_mem_mergeValues hvalue hexisting.locals _,
      forall_mem_mergeValues hvalue hexisting.stack _⟩
    rw [← hexisting.length]
    exact length_mergeValues ..
  next =>
    split
    next => exact { hexisting with stack := hincoming.stack }
    next => exact hexisting

theorem loose_entryState {owner : String} {access : Access} {name descriptor : String}
    {initial : List VerificationType} (h : initialLocals owner access name descriptor = .ok initial)
    (code : Code) :
    (entryState initial code false).Loose instructions (localsOf initial code) :=
  ⟨rfl, length_entryState initial code false,
    fun v hv => (plain_entryState h code false v hv).named, nofun⟩

end FlowState

namespace FlowStep

variable {instructions : Array Instruction} {count : Nat} {E : Invalid → Prop}

theorem tries_push {value : Value} (h : value.Named instructions) :
    Tries (FlowState.Loose instructions count) (push value) (fun _ => True) E := by
  refine fun s hs => ⟨fun a t hrun => ?_, nofun⟩
  cases hrun
  exact ⟨{ hs with stack := List.forall_mem_cons.mpr ⟨h, hs.stack⟩ }, trivial⟩

/-- An empty stack gives `top`. -/
theorem tries_pop :
    Tries (FlowState.Loose instructions count) pop (Value.Named instructions) E := by
  rintro ⟨locals, stack, lenient⟩ ⟨rfl, hlength, hlocals, hstack⟩
  cases stack with
  | nil =>
    refine ⟨fun a t hrun => ?_, nofun⟩
    cases hrun
    exact ⟨⟨rfl, hlength, hlocals, nofun⟩, Value.Plain.named nofun⟩
  | cons value rest =>
    obtain ⟨hvalue, hrest⟩ := List.forall_mem_cons.mp hstack
    refine ⟨fun a t hrun => ?_, nofun⟩
    cases hrun
    exact ⟨⟨rfl, hlength, hlocals, hrest⟩, hvalue⟩

/-- In a lenient state the operand may take two slots. -/
theorem popOne_of_lenient {s : FlowState} (h : s.lenient = true) : popOne s = pop s := by
  obtain ⟨locals, stack, lenient⟩ := s
  obtain rfl : lenient = true := h
  cases stack with
  | nil => rfl
  | cons value rest =>
    have hskip : ¬ (value.isWide = true ∧ ¬ true = true) := fun h => h.2 rfl
    change (if _ then _ else _ : FlowStep Value) (⟨locals, rest, true⟩ : FlowState) = _
    rw [if_neg hskip]
    rfl

theorem tries_popOne :
    Tries (FlowState.Loose instructions count) popOne (Value.Named instructions) E := by
  intro s hs
  rw [popOne_of_lenient hs.lenient]
  exact tries_pop s hs

theorem load_of_getElem? {s : FlowState} {slot : UInt16} {value : Value}
    (h : s.locals[slot.toNat]? = some value) : load slot s = .ok (value, s) := by
  refine bind_eq_ok.mpr ⟨s, s, rfl, ?_⟩
  simp only [h]
  rfl

theorem tries_load {slot : UInt16} (h : slot.toNat < count) :
    Tries (FlowState.Loose instructions count) (load slot) (Value.Named instructions) E := by
  intro s hs
  obtain ⟨value, hvalue⟩ : ∃ value, s.locals[slot.toNat]? = some value :=
    ⟨_, List.getElem?_eq_getElem (hs.length ▸ h)⟩
  have hload := load_of_getElem? hvalue
  refine ⟨fun a t hrun => ?_, fun cause hrun => nomatch hload.symm.trans hrun⟩
  cases hload.symm.trans hrun
  exact ⟨hs, hs.locals value (List.mem_of_getElem? hvalue)⟩

/-- What takes two slots may stick out past the last one. -/
theorem tries_store {slot : UInt16} {value : Value} (h : slot.toNat < count)
    (hvalue : value.Named instructions) :
    Tries (FlowState.Loose instructions count) (store slot value) (fun _ => True) E := by
  intro s hs
  have hstored (wide : Bool) : FlowState.Loose instructions count
      { s with locals := FlowState.storeLocal s.locals slot.toNat value wide } := by
    refine { hs with length := ?_, locals := fun v hv => ?_ }
    · rw [← hs.length]
      exact FlowState.length_storeLocal ..
    · rcases FlowState.mem_storeLocal hv with hold | rfl | rfl
      · exact hs.locals v hold
      · exact hvalue
      · exact Value.Plain.named nofun
  obtain ⟨wide, hstore⟩ : ∃ wide, store slot value s =
      .ok ((), { s with locals := FlowState.storeLocal s.locals slot.toNat value wide }) := by
    rw [store_apply]
    split
    next => exact ⟨value.isWide, rfl⟩
    next =>
      rw [if_pos ⟨hs.lenient, hs.length ▸ h⟩]
      exact ⟨false, rfl⟩
  refine ⟨fun a t hrun => ?_, fun cause hrun => nomatch hstore.symm.trans hrun⟩
  cases hstore.symm.trans hrun
  exact ⟨hstored wide, trivial⟩

theorem tries_replace (before : Value) {after : Value} (h : after.Named instructions) :
    Tries (FlowState.Loose instructions count) (replace before after) (fun _ => True) E := by
  have hreplaced {values : List Value} (hvalues : ∀ v ∈ values, v.Named instructions) :
      ∀ v ∈ values.map fun v => if v = before then after else v, v.Named instructions := by
    intro v hv
    obtain ⟨w, hw, rfl⟩ := List.mem_map.mp hv
    split
    next => exact h
    next => exact hvalues w hw
  refine fun s hs => ⟨fun a t hrun => ?_, nofun⟩
  cases hrun
  refine ⟨{ hs with length := ?_, locals := hreplaced hs.locals, stack := hreplaced hs.stack },
    trivial⟩
  rw [← hs.length]
  exact List.length_map _

/-- Basic steps keep lenient states so and do not fail, if the local variables
    that they use are there. -/
theorem rules_loose :
    Rules (FlowState.Loose instructions count) (Value.Named instructions) (fun _ => True)
      (·.toNat < count) E where
  plain _ h := h.named
  push _ h := tries_push h
  pop := tries_pop
  popOne := tries_popOne.mono fun _ h => ⟨trivial, h⟩
  load _ h := tries_load h
  store _ _ h hvalue := tries_store h hvalue
  replace before name _ := tries_replace before (Value.plain_object name).named

end FlowStep

/-! ## Instructions -/

namespace Flow

open FlowStep

variable {instructions : Array Instruction} {count : Nat} {E : Invalid → Prop}

/-- A constructor may always run: what its receiver is made by is a `new`. -/
theorem exists_constructed (owner callee : String) {receiver : Value}
    (h : receiver.Named instructions) :
    ∃ name, constructed owner instructions callee receiver = .ok (.object name) := by
  unfold constructed
  split
  next => exact ⟨owner, rfl⟩
  next label =>
    obtain ⟨name, hname⟩ := h label rfl
    refine ⟨name, ?_⟩
    rw [newClass, hname]
    rfl
  next => exact ⟨callee, rfl⟩

theorem localsTouched_of_slot {i : Instruction} {slot : UInt16} (h : slot ∈ i.slot?) :
    slot.toNat < localsTouched i := by
  cases i with
  | var opcode index =>
    cases h
    simp only [localsTouched]
    split <;> omega
  | iinc index increment => cases h; exact Nat.lt_succ_self _
  | _ => exact nomatch h

/-- **In a lenient state an instruction fails for its own faults alone**, or it
    is `aaload`, and it keeps the state so. -/
theorem tries_execute (owner : String) {index : Label} {i : Instruction}
    (hi : instructions[index]? = some i) (hslots : localsTouched i ≤ count) :
    Tries (FlowState.Loose instructions count) (execute owner instructions index i)
      (fun _ => True) (fun cause => i.Fault cause ∨ i = .simple 0x32) := by
  refine rules_loose.execute (fun _ => .inl) (fun heq _ => .inr heq) (fun slot h => ?_) ?_
    fun callee receiver cause h hcause => ?_
  · exact Nat.lt_of_lt_of_le (localsTouched_of_slot h) hslots
  · rintro name rfl label heq
    cases heq
    exact ⟨name, hi⟩
  · obtain ⟨name, hname⟩ := exists_constructed owner callee h
    exact nomatch hname.symm.trans hcause

end Flow

end JvmClass
