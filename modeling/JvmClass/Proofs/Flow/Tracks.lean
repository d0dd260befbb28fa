/-
  Instructions on many states at once.

  * `FlowStep.Tracks`: where a step succeeds on the state that gathers others,
    it succeeds on these, and what it leaves is gathered again; it follows the
    structure of steps;
  * `Instruction.Suits`: an instruction finds operands that it is made for;
  * `gathers_execute`: an instruction that suits the states takes them all to
    states that are gathered again.
-/
import JvmClass.Proofs.Flow.Gathers

namespace JvmClass

open JvmClass.Flow

variable {ι : Type}

/-! ## Steps -/

namespace FlowStep

variable {low : ι → Prop}

/-- Where the step `y` succeeds on a state, each of `steps` succeeds on the
    states that it gathers; the results are related by `R`, and the states after
    them are gathered again. -/
def Tracks {α : Type} (low : ι → Prop) (R : (ι → α) → α → Prop) (steps : ι → FlowStep α)
    (y : FlowStep α) : Prop :=
  ∀ states state, FlowState.Gathers low states state → ∀ b after, y state = .ok (b, after) →
    ∃ a afters, (∀ j, steps j (states j) = .ok (a j, afters j)) ∧ R a b ∧
      FlowState.Gathers low afters after

namespace Tracks

variable {α β : Type} {R : (ι → α) → α → Prop} {S : (ι → β) → β → Prop} {x x' : ι → FlowStep α}
  {y y' : FlowStep α} {f : ι → α → FlowStep β} {g : α → FlowStep β}

theorem bind (hx : Tracks low R x y)
    (hf : ∀ a b, R a b → Tracks low S (fun j => f j (a j)) (g b)) :
    Tracks low S (fun j => x j >>= f j) (y >>= g) := by
  intro states state h b after hrun
  obtain ⟨middle, between, hfirst, hsecond⟩ := bind_eq_ok.mp hrun
  obtain ⟨a, betweens, hfirsts, hR, hbetween⟩ := hx states state h middle between hfirst
  obtain ⟨c, afters, hseconds, hS, hafter⟩ :=
    hf a middle hR betweens between hbetween b after hsecond
  exact ⟨c, afters, fun j => bind_eq_ok.mpr ⟨a j, betweens j, hfirsts j, hseconds j⟩, hS, hafter⟩

theorem pure {a : ι → α} {b : α} (h : R a b) :
    Tracks low R (fun j => Pure.pure (a j)) (Pure.pure b) := by
  intro states state hgathers c after hrun
  cases hrun
  exact ⟨a, states, fun _ => rfl, h, hgathers⟩

theorem throw {cause : Invalid} :
    Tracks low R x (MonadExcept.throw cause : FlowStep α) :=
  fun _ _ _ _ _ hrun => nomatch hrun

theorem iteEach {c : ι → Prop} {d : Prop} [∀ j, Decidable (c j)] [Decidable d] (hcond : ∀ j, c j ↔ d)
    (hx : d → Tracks low R x y) (hx' : ¬ d → Tracks low R x' y') :
    Tracks low R (fun j => if c j then x j else x' j) (if d then y else y') := by
  by_cases hd : d
  · have hfun : (fun j => if c j then x j else x' j) = x :=
      funext fun j => if_pos ((hcond j).mpr hd)
    rw [hfun, if_pos hd]
    exact hx hd
  · have hfun : (fun j => if c j then x j else x' j) = x' :=
      funext fun j => if_neg fun h => hd ((hcond j).mp h)
    rw [hfun, if_neg hd]
    exact hx' hd

theorem ite {c : Prop} [Decidable c] (hx : c → Tracks low R x y)
    (hx' : ¬ c → Tracks low R x' y') :
    Tracks low R (fun j => if c then x j else x' j) (if c then y else y') :=
  iteEach (fun _ => .rfl) hx hx'

theorem ofDescriptor {γ : Type} {result : Except Malformed γ} {f : ι → γ → FlowStep α}
    {g : γ → FlowStep α} (h : ∀ c, Tracks low R (fun j => f j c) (g c)) :
    Tracks low R (fun j => FlowStep.ofDescriptor result >>= f j)
      (FlowStep.ofDescriptor result >>= g) := by
  cases result with
  | ok c => exact h c
  | error cause => exact throw

end Tracks

/-! ## Lenient steps -/

theorem bind_of_eq_ok {α β : Type} {x : FlowStep α} {f : α → FlowStep β} {s t : FlowState} {a : α}
    (h : x s = .ok (a, t)) : (x >>= f) s = f a t := by
  change (x s >>= fun (a, t) => f a t) = _
  rw [h]
  rfl

theorem pop_of_lenient {state : FlowState} (h : state.lenient = true) :
    pop state = .ok (state.operand 0, state.popped 1) := by
  obtain ⟨locals, stack, lenient⟩ := state
  obtain rfl : lenient = true := h
  cases stack <;> rfl

theorem popMany_of_lenient (n : Nat) {state : FlowState} (h : state.lenient = true) :
    popMany n state = .ok ((), state.popped n) := by
  induction n generalizing state with
  | zero => rfl
  | succ n ih =>
    refine bind_eq_ok.mpr ⟨_, _, pop_of_lenient h, ?_⟩
    rw [ih (show (state.popped 1).lenient = true from h), FlowState.popped_popped, Nat.add_comm]

theorem store_eq_ok {state after : FlowState} {index : UInt16} {value : Value}
    (h : store index value state = .ok ((), after)) :
    ∃ wide, ∀ (other : FlowState) (v : Value), other.lenient = true →
      other.locals.length = state.locals.length → v.isWide = value.isWide → store index v other =
        .ok ((), { other with
          locals := FlowState.storeLocal other.locals index.toNat v wide }) := by
  rw [store_apply] at h
  by_cases hfits : index.toNat + value.size ≤ state.locals.length
  · refine ⟨value.isWide, fun other v _ hlength hwide => ?_⟩
    rw [store_apply, Value.size_eq hwide, hwide, hlength, if_pos hfits]
  · rw [if_neg hfits] at h
    split at h
    next hlenient =>
      refine ⟨false, fun other v hother hlength hwide => ?_⟩
      rw [store_apply, Value.size_eq hwide, hlength, if_neg hfits, if_pos ⟨hother, hlenient.2⟩]
    next => exact nomatch h

theorem load_of_lt {state : FlowState} {index : UInt16} (h : index.toNat < state.locals.length) :
    load index state = .ok (Value.nth state.locals index.toNat, state) := by
  have hvalue := List.getElem?_eq_getElem h
  rw [Value.nth_of_getElem? hvalue]
  exact load_of_getElem? hvalue

theorem lt_of_load {state after : FlowState} {index : UInt16} {value : Value}
    (h : load index state = .ok (value, after)) : index.toNat < state.locals.length := by
  obtain ⟨_, _, hget, hrest⟩ := bind_eq_ok.mp h
  cases hget
  cases hvalue : state.locals[index.toNat]? with
  | some found => exact (List.getElem?_eq_some_iff.mp hvalue).1
  | none =>
    rw [hvalue] at hrest
    exact nomatch hrest

theorem tracks_load (index : UInt16) :
    Tracks low (fun _ _ => True) (fun _ : ι => load index) (load index) := by
  intro states state h b after hrun
  have hlt := lt_of_load hrun
  cases (load_of_lt hlt).symm.trans hrun
  exact ⟨_, states, fun j => load_of_lt (h.length j ▸ hlt), trivial, h⟩

theorem tracks_push {values : ι → Value} {value : Value} (h : Value.Gathers values value) :
    Tracks low (fun _ _ => True) (fun j => push (values j)) (push value) := by
  intro states state hgathers b after hrun
  cases hrun
  exact ⟨fun _ => (), _, fun _ => rfl, trivial, hgathers.pushed h⟩

theorem tracks_pushConst [Nonempty ι] (value : Value) :
    Tracks low (fun _ _ => True) (fun _ : ι => push value) (push value) :=
  tracks_push (.const value)

theorem tracks_pop : Tracks low Value.Gathers (fun _ : ι => pop) pop := by
  intro states state h b after hrun
  cases (pop_of_lenient h.lenient).symm.trans hrun
  exact ⟨_, _, fun j => pop_of_lenient (h.each j), h.operands 0, h.popped 1⟩

theorem tracks_popOne : Tracks low Value.Gathers (fun _ : ι => popOne) popOne := by
  intro states state h b after hrun
  rw [popOne_of_lenient h.lenient] at hrun
  simp only [popOne_of_lenient (h.each _)]
  exact tracks_pop states state h b after hrun

theorem tracks_popMany (n : Nat) :
    Tracks low (fun _ _ => True) (fun _ : ι => popMany n) (popMany n) := by
  intro states state h b after hrun
  cases (popMany_of_lenient n h.lenient).symm.trans hrun
  exact ⟨_, _, fun j => popMany_of_lenient n (h.each j), trivial, h.popped n⟩

theorem tracks_pushAll (pairs : List ((ι → Value) × Value))
    (h : ∀ pair ∈ pairs, Value.Gathers pair.1 pair.2) :
    Tracks low (fun _ _ => True) (fun j => pushAll (pairs.map fun pair => pair.1 j))
      (pushAll (pairs.map (·.2))) := by
  induction pairs with
  | nil =>
    intro states state hgathers b after hrun
    cases hrun
    exact ⟨fun _ => (), states, fun _ => rfl, trivial, hgathers⟩
  | cons pair pairs ih =>
    obtain ⟨hpair, hpairs⟩ := List.forall_mem_cons.mp h
    simp only [List.map_cons, pushAll_cons]
    exact (tracks_push hpair).bind fun _ _ _ => ih hpairs

theorem tracks_store (index : UInt16) {values : ι → Value} {value : Value}
    (h : Value.Gathers values value) :
    Tracks low (fun _ _ => True) (fun j => store index (values j)) (store index value) := by
  intro states state hgathers b after hrun
  obtain ⟨wide, hstore⟩ := store_eq_ok hrun
  cases (hstore state value hgathers.lenient rfl rfl).symm.trans hrun
  exact ⟨fun _ => (), _, fun j => hstore (states j) (values j) (hgathers.each j) (hgathers.length j)
    (Value.isWide_eq_of_wide? (h.wide j)), trivial, hgathers.stored h index.toNat wide⟩

end FlowStep

/-! ## Instructions -/

/-- An instruction finds what it is for: `aload` a value of one slot, `aaload`
    an array whose elements take one slot, and a constructor is called neither
    on a value of two slots nor on an array of such values. -/
def Instruction.Suits : Instruction → FlowState → Prop
  | .var opcode slot, state =>
    opcode = Opcode.aload → (Value.nth state.locals slot.toNat).isWide = false
  | .simple opcode, state => opcode = 0x32 →
    ∃ element, (state.operand 1).element = .ok element ∧ element.isWide = false
  | .method opcode member _, state =>
    opcode = Opcode.invokespecial → member.name = "<init>" →
      ∀ type, MethodType.ofDescriptor member.descriptor = .ok type →
        (state.operand type.parameters.length).Shallow
  | _, _ => True

namespace Flow

open FlowStep

theorem arrayElement_eq : (array : Value) → arrayElement array = ofDescriptor array.element
  | .known (.object name) => by
    simp only [arrayElement, Value.element]
    split <;> rfl
  | .known .top | .known .integer | .known .float | .known .long | .known .double | .known .null
  | .known .uninitializedThis | .known (.uninitialized _) | .returnAddress => rfl

variable {low : ι → Prop}

theorem tracks_stackOp (op : StackOp) :
    Tracks low (fun _ _ => True) (fun _ : ι => op.run) op.run := by
  have hpop : Tracks low Value.Gathers (fun _ : ι => pop) pop := tracks_pop
  have hone : Tracks low Value.Gathers (fun _ : ι => popOne) popOne := tracks_popOne
  have hdone : Tracks low (fun _ _ => True) (fun _ : ι => pure ()) (pure ()) := .pure trivial
  have hwide {values : ι → Value} {value : Value} (h : Value.Gathers values value) (j : ι) :
      (values j).isWide = true ↔ value.isWide = true := by
    rw [Value.isWide_eq_of_wide? (h.wide j)]
  cases op with
  | pop => exact hone.bind fun _ _ _ => hdone
  | pop2 =>
    refine hpop.bind fun _ _ h1 => .iteEach (hwide h1) (fun _ => hdone) fun _ => ?_
    exact hone.bind fun _ _ _ => hdone
  | dup => exact hone.bind fun v1 w1 h1 => tracks_pushAll [(v1, w1), (v1, w1)] (by simp [h1])
  | dupX1 =>
    refine hone.bind fun v1 w1 h1 => hone.bind fun v2 w2 h2 => ?_
    exact tracks_pushAll [(v1, w1), (v2, w2), (v1, w1)] (by simp [h1, h2])
  | dupX2 =>
    refine hone.bind fun v1 w1 h1 => hpop.bind fun v2 w2 h2 => .iteEach (hwide h2) (fun _ => ?_)
      fun _ => hone.bind fun v3 w3 h3 => ?_
    · exact tracks_pushAll [(v1, w1), (v2, w2), (v1, w1)] (by simp [h1, h2])
    · exact tracks_pushAll [(v1, w1), (v3, w3), (v2, w2), (v1, w1)] (by simp [h1, h2, h3])
  | dup2 =>
    refine hpop.bind fun v1 w1 h1 => .iteEach (hwide h1) (fun _ => ?_)
      fun _ => hone.bind fun v2 w2 h2 => ?_
    · exact tracks_pushAll [(v1, w1), (v1, w1)] (by simp [h1])
    · exact tracks_pushAll [(v2, w2), (v1, w1), (v2, w2), (v1, w1)] (by simp [h1, h2])
  | dup2X1 =>
    refine hpop.bind fun v1 w1 h1 => hone.bind fun v2 w2 h2 => .iteEach (hwide h1) (fun _ => ?_)
      fun _ => hone.bind fun v3 w3 h3 => ?_
    · exact tracks_pushAll [(v1, w1), (v2, w2), (v1, w1)] (by simp [h1, h2])
    · exact tracks_pushAll [(v2, w2), (v1, w1), (v3, w3), (v2, w2), (v1, w1)]
        (by simp [h1, h2, h3])
  | dup2X2 =>
    refine hpop.bind fun v1 w1 h1 => .iteEach (hwide h1) (fun _ => hpop.bind fun v2 w2 h2 => ?_)
      fun _ => hone.bind fun v2 w2 h2 => hpop.bind fun v3 w3 h3 => ?_
    · refine .iteEach (hwide h2) (fun _ => ?_) fun _ => hone.bind fun v3 w3 h3 => ?_
      · exact tracks_pushAll [(v1, w1), (v2, w2), (v1, w1)] (by simp [h1, h2])
      · exact tracks_pushAll [(v1, w1), (v3, w3), (v2, w2), (v1, w1)] (by simp [h1, h2, h3])
    · refine .iteEach (hwide h3) (fun _ => ?_) fun _ => hone.bind fun v4 w4 h4 => ?_
      · exact tracks_pushAll [(v2, w2), (v1, w1), (v3, w3), (v2, w2), (v1, w1)]
          (by simp [h1, h2, h3])
      · exact tracks_pushAll [(v2, w2), (v1, w1), (v4, w4), (v3, w3), (v2, w2), (v1, w1)]
          (by simp [h1, h2, h3, h4])
  | swap =>
    refine hone.bind fun v1 w1 h1 => hone.bind fun v2 w2 h2 => ?_
    exact tracks_pushAll [(v1, w1), (v2, w2)] (by simp [h1, h2])

theorem tracks_jump (opcode : UInt8) :
    Tracks low (fun _ _ => True) (fun _ : ι => jump opcode) (jump opcode) := by
  unfold jump
  refine .ite (fun _ => tracks_popOne.bind fun _ _ _ => .pure trivial) fun _ => ?_
  refine .ite (fun _ => tracks_popMany 2) fun _ => ?_
  exact .ite (fun _ => .pure trivial) fun _ => .throw

section
variable [Nonempty ι]

theorem tracks_unary (result : Value) :
    Tracks low (fun _ _ => True) (fun _ : ι => unary result) (unary result) :=
  tracks_pop.bind fun _ _ _ => tracks_pushConst result

theorem tracks_binary (result : Value) :
    Tracks low (fun _ _ => True) (fun _ : ι => binary result) (binary result) :=
  (tracks_popMany 2).bind fun _ _ _ => tracks_pushConst result

theorem tracks_pushResult (type : MethodType) :
    Tracks low (fun _ _ => True) (fun _ : ι => pushResult type) (pushResult type) := by
  unfold pushResult
  split
  next result _ => exact tracks_pushConst (.ofType result)
  next => exact .pure trivial

/-- Instructions without operands do the same to all states, but for `aaload`. -/
theorem tracks_simple {opcode : UInt8} (hopcode : opcode ≠ 0x32) :
    Tracks low (fun _ _ => True) (fun _ : ι => simple opcode) (simple opcode) := by
  have hstep := simpleStep opcode
  generalize simple opcode = step at hstep ⊢
  cases hstep with
  | stackOp op => exact tracks_stackOp op
  | nothing => exact .pure trivial
  | constant => exact tracks_pushConst _
  | unary => exact tracks_unary _
  | binary => exact tracks_binary _
  | discard count => exact tracks_popMany count
  | element heq => exact absurd heq hopcode
  | refused => exact .throw

theorem tracks_var {opcode : UInt8} (hopcode : opcode ≠ Opcode.aload) (slot : UInt16) :
    Tracks low (fun _ _ => True) (fun _ : ι => var opcode slot) (var opcode slot) := by
  unfold var
  refine .ite (fun _ => tracks_pushConst _) fun _ => ?_
  refine .ite (fun _ => tracks_pushConst _) fun _ => ?_
  refine .ite (fun _ => tracks_pushConst _) fun _ => ?_
  refine .ite (fun _ => tracks_pushConst _) fun _ => ?_
  refine .ite (fun heq => absurd heq hopcode) fun _ => ?_
  refine .ite (fun _ => tracks_pop.bind fun _ _ h => tracks_store slot h) fun _ => ?_
  exact .ite (fun _ => (tracks_load slot).bind fun _ _ _ => .pure trivial) fun _ => .throw

theorem tracks_field (opcode : UInt8) (member : Member) :
    Tracks low (fun _ _ => True) (fun _ : ι => field opcode member) (field opcode member) := by
  refine .ofDescriptor fun value => ?_
  refine .ite (fun _ => tracks_pushConst value) fun _ => ?_
  refine .ite (fun _ => tracks_popMany 1) fun _ => ?_
  refine .ite (fun _ => tracks_popOne.bind fun _ _ _ => tracks_pushConst value)
    fun _ => ?_
  exact .ite (fun _ => tracks_popMany 2) fun _ => .throw

theorem tracks_type (index : Label) (opcode : UInt8) (className : String) :
    Tracks low (fun _ _ => True) (fun _ : ι => type index opcode className)
      (type index opcode className) := by
  have hreplace (value : Value) : Tracks low (fun _ _ => True)
      (fun _ : ι => popOne >>= fun _ => push value) (popOne >>= fun _ => push value) :=
    tracks_popOne.bind fun _ _ _ => tracks_pushConst value
  refine .ite (fun _ => tracks_pushConst _) fun _ => ?_
  refine .ite (fun _ => hreplace _) fun _ => ?_
  refine .ite (fun _ => hreplace _) fun _ => ?_
  exact .ite (fun _ => hreplace _) fun _ => .throw

end

/-! ## Instructions that suit the states -/

/-- The classes that constructors make instances of are no arrays of values of
    two slots. -/
structure ShallowClasses (owner : String) (instructions : Array Instruction) : Prop where
  owner : (Value.object owner).Shallow
  made : ∀ name, .type Opcode.new name ∈ instructions → (Value.object name).Shallow
  called : ∀ member interface, .method Opcode.invokespecial member interface ∈ instructions →
    member.name = "<init>" → (Value.object member.owner).Shallow

theorem ShallowClasses.shallow_of_constructed {owner callee : String}
    {instructions : Array Instruction} (h : ShallowClasses owner instructions)
    (hcallee : (Value.object callee).Shallow) {receiver left : Value}
    (hleft : constructed owner instructions callee receiver = .ok left) : left.Shallow := by
  unfold constructed at hleft
  split at hleft
  next => cases hleft; exact h.owner
  next label =>
    obtain ⟨name, hname, hdone⟩ := Result.bind_eq_ok.mp hleft
    cases hdone
    unfold newClass at hname
    split at hname
    next opcode className hinstruction =>
      split at hname
      next hopcode =>
        cases hname
        exact h.made _ (hopcode ▸ Array.mem_of_getElem? hinstruction)
      next => exact nomatch hname
    next => exact nomatch hname
  next => cases hleft; exact hcallee

theorem aaload_of_lenient {s : FlowState} (hs : s.lenient = true) :
    simple 0x32 s = (ofDescriptor (s.operand 1).element >>= push) (s.popped 2) := by
  have hs' : (s.popped 1).lenient = true := hs
  have hone := (popOne_of_lenient hs).trans (pop_of_lenient hs)
  have hnext := (popOne_of_lenient hs').trans (pop_of_lenient hs')
  change (popOne >>= fun _ => popOne >>= fun array => arrayElement array >>= push) s = _
  rw [bind_of_eq_ok hone, bind_of_eq_ok hnext, arrayElement_eq, FlowState.operand_popped,
    FlowState.popped_popped]

section
variable {states : ι → FlowState} {state after : FlowState} (h : FlowState.Gathers low states state)
include h

/-- What takes one slot in all local variables is loaded by `aload`. -/
theorem gathers_aload {slot : UInt16}
    (hsuits : ∀ j, (Value.nth (states j).locals slot.toNat).isWide = false)
    (hrun : var Opcode.aload slot state = .ok ((), after)) :
    ∃ afters, (∀ j, var Opcode.aload slot (states j) = .ok ((), afters j)) ∧
      FlowState.Gathers low afters after := by
  obtain ⟨value, middle, hload, hpush⟩ := bind_eq_ok.mp hrun
  have hlt := lt_of_load hload
  cases (load_of_lt hlt).symm.trans hload
  cases hpush
  refine ⟨_, fun j => bind_eq_ok.mpr ⟨_, _, load_of_lt (h.length j ▸ hlt), rfl⟩, h.pushed ?_⟩
  have hnarrow : (Value.nth state.locals slot.toNat).isWide = false := by
    refine Bool.eq_false_iff.mpr fun hwide => ?_
    obtain ⟨j, hj⟩ := h.locals slot.toNat 0 hwide
    exact Bool.eq_false_iff.mp (hsuits j) hj
  refine ⟨fun j => ?_, h.locals slot.toNat⟩
  rw [Value.wide?_eq_none.mpr (hsuits j), Value.wide?_eq_none.mpr hnarrow]

theorem gathers_aaload
    (hsuits : ∀ j, ∃ element, ((states j).operand 1).element = .ok element ∧
      element.isWide = false)
    (hrun : simple 0x32 state = .ok ((), after)) :
    ∃ afters, (∀ j, simple 0x32 (states j) = .ok ((), afters j)) ∧
      FlowState.Gathers low afters after := by
  choose elements helements hnarrow using hsuits
  rw [aaload_of_lenient h.lenient] at hrun
  cases helement : (state.operand 1).element with
  | error cause =>
    rw [helement] at hrun
    exact nomatch hrun
  | ok element =>
    rw [helement] at hrun
    cases hrun
    refine ⟨_, fun j => ?_, (h.popped 2).pushed ((h.operands 1).element helements hnarrow helement)⟩
    rw [aaload_of_lenient (h.each j), helements j]
    rfl

end

theorem tracks_constructed {owner callee : String} {instructions : Array Instruction}
    (hclasses : ShallowClasses owner instructions) (hcallee : (Value.object callee).Shallow)
    {receivers : ι → Value} {receiver : Value} (hnamed : ∀ j, (receivers j).Named instructions) :
    Tracks low (fun lefts left => (∀ j, (lefts j).Shallow) ∧ left.Shallow)
      (fun j => liftM (constructed owner instructions callee (receivers j)))
      (liftM (constructed owner instructions callee receiver)) := by
  intro states state h left after hrun
  choose names hnames using fun j => exists_constructed owner callee (hnamed j)
  cases hleft : constructed owner instructions callee receiver with
  | error cause =>
    rw [hleft] at hrun
    exact nomatch hrun
  | ok found =>
    rw [hleft] at hrun
    cases hrun
    refine ⟨fun j => .object (names j), states, fun j => ?_, ⟨fun j => ?_, ?_⟩, h⟩
    · dsimp only
      rw [hnames j]
      rfl
    · exact hclasses.shallow_of_constructed hcallee (hnames j)
    · exact hclasses.shallow_of_constructed hcallee hleft

theorem tracks_replace {receivers lefts : ι → Value} {receiver left : Value}
    (hreceivers : ∀ j, (receivers j).Shallow) (hlefts : ∀ j, (lefts j).Shallow)
    (hreceiver : receiver.Shallow) (hleft : left.Shallow) :
    Tracks low (fun _ _ => True) (fun j => replace (receivers j) (lefts j))
      (replace receiver left) := by
  intro states state h _ after hrun
  cases hrun
  exact ⟨fun _ => (), _, fun _ => rfl, trivial, h.replaced hreceivers hlefts hreceiver hleft⟩

/-- What a constructor does when its arguments and its receiver are popped. -/
def construct (owner : String) (instructions : Array Instruction) (callee : String)
    (type : MethodType) (receiver : Value) : FlowStep Unit := do
  replace receiver (← constructed owner instructions callee receiver)
  pushResult type

theorem method_of_constructor {owner : String} {instructions : Array Instruction} {member : Member}
    {type : MethodType} (hname : member.name = "<init>")
    (htype : MethodType.ofDescriptor member.descriptor = .ok type) {s : FlowState}
    (hs : s.lenient = true) :
    method owner instructions Opcode.invokespecial member s =
      construct owner instructions member.owner type (s.operand type.parameters.length)
        (s.popped (type.parameters.length + 1)) := by
  have hs' : (s.popped type.parameters.length).lenient = true := hs
  have hone := (popOne_of_lenient hs').trans (pop_of_lenient hs')
  unfold method
  rw [htype, show ofDescriptor (Except.ok type) = pure type from rfl, pure_bind,
    bind_of_eq_ok (popMany_of_lenient _ hs), if_neg (by decide), bind_of_eq_ok hone,
    if_pos ⟨rfl, hname⟩, FlowState.operand_popped, FlowState.popped_popped]
  rfl

section
variable [Nonempty ι]

theorem tracks_construct {owner callee : String} {instructions : Array Instruction}
    (hclasses : ShallowClasses owner instructions) (hcallee : (Value.object callee).Shallow)
    (type : MethodType) {receivers : ι → Value} {receiver : Value}
    (hnamed : ∀ j, (receivers j).Named instructions) (hreceivers : ∀ j, (receivers j).Shallow)
    (hreceiver : receiver.Shallow) :
    Tracks low (fun _ _ => True)
      (fun j => construct owner instructions callee type (receivers j))
      (construct owner instructions callee type receiver) := by
  refine (tracks_constructed hclasses hcallee hnamed).bind fun lefts left hlefts => ?_
  refine (tracks_replace hreceivers hlefts.1 hreceiver hlefts.2).bind fun _ _ _ => ?_
  exact tracks_pushResult type

/-- A call other than that of a constructor does the same to all states. -/
theorem tracks_method {owner : String} {instructions : Array Instruction} {opcode : UInt8}
    {member : Member} (h : ¬ (opcode = Opcode.invokespecial ∧ member.name = "<init>")) :
    Tracks low (fun _ _ => True) (fun _ : ι => method owner instructions opcode member)
      (method owner instructions opcode member) := by
  refine .ofDescriptor fun type => (tracks_popMany _).bind fun _ _ _ => ?_
  refine .ite (fun _ => tracks_pushResult type) fun _ => tracks_popOne.bind fun _ _ _ => ?_
  exact .ite (fun hinit => absurd hinit h) fun _ => tracks_pushResult type

theorem gathers_constructor {states : ι → FlowState} {state after : FlowState}
    (h : FlowState.Gathers low states state) {owner : String} {instructions : Array Instruction}
    {count : Nat} (hclasses : ShallowClasses owner instructions) {member : Member}
    (hcallee : (Value.object member.owner).Shallow) (hname : member.name = "<init>")
    (hloose : ∀ j, (states j).Loose instructions count)
    (hsuits : ∀ j type, MethodType.ofDescriptor member.descriptor = .ok type →
      ((states j).operand type.parameters.length).Shallow)
    (hrun : method owner instructions Opcode.invokespecial member state = .ok ((), after)) :
    ∃ afters, (∀ j, method owner instructions Opcode.invokespecial member (states j) =
      .ok ((), afters j)) ∧ FlowState.Gathers low afters after := by
  cases htype : MethodType.ofDescriptor member.descriptor with
  | error cause =>
    unfold method at hrun
    rw [htype] at hrun
    exact nomatch hrun
  | ok type =>
    have hnamed (j : ι) := (hloose j).named_operand type.parameters.length
    have hreceivers (j : ι) := hsuits j type htype
    have hreceiver : (state.operand type.parameters.length).Shallow := fun depth hdeep => by
      obtain ⟨j, hj⟩ := (h.operands type.parameters.length).deep depth hdeep
      exact hreceivers j depth hj
    rw [method_of_constructor hname htype h.lenient] at hrun
    obtain ⟨_, afters, hafters, -, hafter⟩ :=
      tracks_construct hclasses hcallee type hnamed hreceivers hreceiver _ _ (h.popped _) _ _ hrun
    refine ⟨afters, fun j => ?_, hafter⟩
    rw [method_of_constructor hname htype (h.each j)]
    exact hafters j

/-- **Where an instruction succeeds on the state that gathers others, it succeeds
    on these**, if it suits them, and the states after it are gathered. -/
theorem gathers_execute {states : ι → FlowState} {state after : FlowState}
    (h : FlowState.Gathers low states state) {owner : String} {instructions : Array Instruction}
    {count : Nat} (hclasses : ShallowClasses owner instructions) {index : Label} {i : Instruction}
    (hi : instructions[index]? = some i) (hloose : ∀ j, (states j).Loose instructions count)
    (hsuits : ∀ j, i.Suits (states j))
    (hrun : execute owner instructions index i state = .ok ((), after)) :
    ∃ afters, (∀ j, execute owner instructions index i (states j) = .ok ((), afters j)) ∧
      FlowState.Gathers low afters after := by
  -- Most instructions do the same to every state.
  have hsame (htracks : Tracks low (fun _ _ => True)
      (fun _ : ι => execute owner instructions index i) (execute owner instructions index i)) :
      ∃ afters, (∀ j, execute owner instructions index i (states j) = .ok ((), afters j)) ∧
        FlowState.Gathers low afters after := by
    obtain ⟨_, afters, hafters, -, hafter⟩ := htracks states state h _ _ hrun
    exact ⟨afters, hafters, hafter⟩
  cases i with
  | simple opcode =>
    by_cases hopcode : opcode = 0x32
    · subst hopcode
      exact gathers_aaload h (fun j => hsuits j rfl) hrun
    · exact hsame (tracks_simple hopcode)
  | push opcode value => exact hsame (tracks_pushConst _)
  | ldc constant => exact hsame (.ofDescriptor fun value => tracks_pushConst value)
  | var opcode slot =>
    by_cases hopcode : opcode = Opcode.aload
    · subst hopcode
      exact gathers_aload h (fun j => hsuits j rfl) hrun
    · exact hsame (tracks_var hopcode slot)
  | iinc slot increment => exact hsame (tracks_store slot (.const _))
  | jump opcode target => exact hsame (tracks_jump opcode)
  | tableSwitch | lookupSwitch => exact hsame (tracks_popOne.bind fun _ _ _ => .pure trivial)
  | field opcode member => exact hsame (tracks_field opcode member)
  | method opcode member interface =>
    by_cases hinit : opcode = Opcode.invokespecial ∧ member.name = "<init>"
    · obtain ⟨rfl, hname⟩ := hinit
      have hcallee := hclasses.called member interface (Array.mem_of_getElem? hi) hname
      exact gathers_constructor h hclasses hcallee hname hloose (fun j => hsuits j rfl hname) hrun
    · exact hsame (tracks_method hinit)
  | invokeDynamic name descriptor bootstrap =>
    refine hsame (.ofDescriptor fun type => (tracks_popMany _).bind fun _ _ _ => ?_)
    exact tracks_pushResult type
  | type opcode className => exact hsame (tracks_type index opcode className)
  | newArray atype =>
    refine hsame (tracks_popOne.bind fun _ _ _ => ?_)
    cases hname : primitiveArray atype with
    | error cause => exact .throw
    | ok name => exact tracks_pushConst _
  | multiNewArray className dimensions =>
    exact hsame ((tracks_popMany _).bind fun _ _ _ => tracks_pushConst _)

end

end Flow

end JvmClass
