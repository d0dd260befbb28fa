/-
  What instructions do to a state.

  * `Value.Plain` values come from no `new` instruction;
  * `Instruction.Fault` are the causes that lie in an instruction itself: its
    operation code is not one of its kind, or something in it does not parse
    (`aaload` can also fail for the array that it finds);
  * `FlowStep.Tries I step P E`: tried in a state with the invariant `I`, `step`
    keeps it and returns what satisfies `P`, or it fails for a cause in `E`;
  * `Flow.SimpleStep` are the things that instructions without operands do;
  * `FlowStep.Rules` says how basic steps behave under an invariant, and
    `Rules.execute` that instructions behave in the same way; `BasicRules` are
    enough for all but calls of constructors.
-/
import JvmClass.Flow.Execute
import JvmClass.Proofs.Bytecode.Legal
import JvmClass.Proofs.Result

namespace JvmClass

/-! ## Values -/

/-- A value that comes from no `new` instruction. -/
def Value.Plain (value : Value) : Prop := ∀ label, value ≠ .uninitialized label

namespace Value

theorem plain_ofType (type : FieldType) : (ofType type).Plain := by
  intro label h
  cases type with
  | base element => cases element <;> cases h
  | object className => cases h
  | array component => cases h

theorem plain_ofDescriptor {descriptor : String} {value : Value}
    (h : ofDescriptor descriptor = .ok value) : value.Plain := by
  obtain ⟨type, -, rfl⟩ := Result.map_eq_ok.mp h
  exact plain_ofType type

theorem plain_ofConstant {constant : Constant} {value : Value}
    (h : ofConstant constant = .ok value) : value.Plain := by
  cases constant with
  | dynamic name descriptor handle arguments => exact plain_ofDescriptor h
  | integer | float | long | double | string | classRef | methodType | handle => cases h; nofun

end Value

theorem Flow.plain_arithmeticType (offset : UInt8) : (arithmeticType offset).Plain := by
  unfold arithmeticType
  split <;> nofun

theorem Flow.plain_conversionType (opcode : UInt8) : (conversionType opcode).Plain := by
  unfold conversionType
  split <;> nofun

open JvmClass.Flow

/-! ## Faults -/

/-- A cause that lies in an instruction itself. -/
inductive Instruction.Fault : Instruction → Invalid → Prop
  -- the operation code is not one of its kind
  | simple {opcode : UInt8} (h : ¬ Opcode.IsPlain opcode) :
    Fault (.simple opcode) (.takesOperands opcode)
  | var {opcode : UInt8} {slot : UInt16} (h : ¬ Opcode.IsVariable opcode) :
    Fault (.var opcode slot) (.notVariableInstruction opcode)
  | jump {opcode : UInt8} {target : Label} (h : ¬ Opcode.IsBranch opcode) :
    Fault (.jump opcode target) (.notJump opcode)
  | access {opcode : UInt8} {member : Member} (h : ¬ Opcode.IsAccess opcode) :
    Fault (.field opcode member) (.notFieldInstruction opcode)
  | type {opcode : UInt8} {className : String}
      (h : opcode ∉ [Opcode.new, Opcode.anewarray, Opcode.checkcast, Opcode.instanceof]) :
    Fault (.type opcode className) (.notTypeInstruction opcode)
  | newArray {atype : UInt8} (h : Opcode.isArrayType atype = false) :
    Fault (.newArray atype) (.newArrayType atype)
  -- a descriptor does not parse
  | constant {name descriptor : String} {handle : Handle} {arguments : List Constant}
      {cause : Malformed} (h : FieldType.ofDescriptor descriptor = .error cause) :
    Fault (.ldc (.dynamic name descriptor handle arguments)) (.badDescriptor cause)
  | field {opcode : UInt8} {member : Member} {cause : Malformed}
      (h : FieldType.ofDescriptor member.descriptor = .error cause) :
    Fault (.field opcode member) (.badDescriptor cause)
  | method {opcode : UInt8} {member : Member} {interface : Bool} {cause : Malformed}
      (h : MethodType.ofDescriptor member.descriptor = .error cause) :
    Fault (.method opcode member interface) (.badDescriptor cause)
  | callSite {name descriptor : String} {bootstrap : BootstrapMethod} {cause : Malformed}
      (h : MethodType.ofDescriptor descriptor = .error cause) :
    Fault (.invokeDynamic name descriptor bootstrap) (.badDescriptor cause)

/-- The instruction calls a constructor. -/
def Instruction.Constructs (i : Instruction) : Prop :=
  ∃ member interface, i = .method Opcode.invokespecial member interface ∧ member.name = "<init>"

/-- The local variable that an instruction uses. -/
def Instruction.slot? : Instruction → Option UInt16
  | .var _ slot => some slot
  | .iinc slot _ => some slot
  | _ => none

/-! ## Steps -/

namespace FlowStep

theorem bind_eq_ok {α β : Type} {x : FlowStep α} {f : α → FlowStep β} {s u : FlowState} {b : β} :
    (x >>= f) s = .ok (b, u) ↔ ∃ a t, x s = .ok (a, t) ∧ f a t = .ok (b, u) :=
  Result.bind_eq_ok.trans Prod.exists

/-- A value is stored whole where it fits, and a lenient state stores the first
    slot of one that does not. -/
theorem store_apply (index : UInt16) (value : Value) (s : FlowState) :
    store index value s =
      if index.toNat + value.size ≤ s.locals.length then
        .ok ((), { s with
          locals := FlowState.storeLocal s.locals index.toNat value value.isWide })
      else if s.lenient ∧ index.toNat < s.locals.length then
        .ok ((), { s with locals := FlowState.storeLocal s.locals index.toNat value false })
      else .error (.localRange index) := by
  change (if index.toNat + value.size ≤ s.locals.length then set _
    else if s.lenient ∧ index.toNat < s.locals.length then set _
    else MonadExcept.throw _ : FlowStep Unit) s = _
  split
  next => rfl
  next => split <;> rfl

theorem pushAll_cons (value : Value) (values : List Value) :
    pushAll (value :: values) = push value >>= fun _ => pushAll values := by
  funext state
  change Except.ok ((), ({ state with stack := (value :: values).reverse ++ state.stack } : FlowState)) =
    Except.ok ((), { state with stack := values.reverse ++ value :: state.stack })
  rw [List.reverse_cons, List.append_assoc, List.singleton_append]

/-- `step` keeps the invariant `I` and returns what satisfies `P`, or it fails
    for a cause in `E`. -/
def Tries {α : Type} (I : FlowState → Prop) (step : FlowStep α) (P : α → Prop)
    (E : Invalid → Prop) : Prop :=
  ∀ s, I s → (∀ a t, step s = .ok (a, t) → I t ∧ P a) ∧ ∀ cause, step s = .error cause → E cause

namespace Tries

variable {α β : Type} {I : FlowState → Prop} {x : FlowStep α} {f : α → FlowStep β}
  {P Q : α → Prop} {R : β → Prop} {E : Invalid → Prop}

theorem mono (hx : Tries I x P E) (h : ∀ a, P a → Q a) : Tries I x Q E :=
  fun s hs => ⟨fun a t hrun => ((hx s hs).1 a t hrun).imp_right (h a), (hx s hs).2⟩

theorem bind (hx : Tries I x P E) (hf : ∀ a, P a → Tries I (f a) R E) :
    Tries I (x >>= f) R E := by
  intro s hs
  obtain ⟨hok, herror⟩ := hx s hs
  refine ⟨fun b u hrun => ?_, fun cause hrun => ?_⟩
  · obtain ⟨a, t, ht, hu⟩ := bind_eq_ok.mp hrun
    obtain ⟨hkept, hP⟩ := hok a t ht
    exact (hf a hP t hkept).1 b u hu
  · rcases Result.bind_eq_error.mp hrun with hfirst | ⟨⟨a, t⟩, ht, hsecond⟩
    · exact herror cause hfirst
    · obtain ⟨hkept, hP⟩ := hok a t ht
      exact (hf a hP t hkept).2 cause hsecond

/-- What the first step returns does not matter. -/
theorem after (hx : Tries I x P E) (hf : ∀ a, Tries I (f a) R E) : Tries I (x >>= f) R E :=
  hx.bind fun a _ => hf a

theorem pure {a : α} (h : P a) : Tries I (Pure.pure a) P E := by
  refine fun s hs => ⟨fun b t hrun => ?_, nofun⟩
  cases hrun
  exact ⟨hs, h⟩

theorem throw {cause : Invalid} (h : E cause) :
    Tries I (MonadExcept.throw cause : FlowStep α) P E := by
  refine fun s _ => ⟨nofun, fun cause' hrun => ?_⟩
  cases hrun
  exact h

theorem ite {c : Prop} [Decidable c] {y : FlowStep α} (hx : c → Tries I x P E)
    (hy : ¬ c → Tries I y P E) : Tries I (if c then x else y) P E := by
  split
  next hc => exact hx hc
  next hc => exact hy hc

/-- What a step returns that leaves the state alone. -/
theorem lift {result : Except Invalid α} (hok : ∀ a, result = .ok a → P a)
    (herror : ∀ cause, result = .error cause → E cause) :
    Tries I (liftM result : FlowStep α) P E := by
  cases result with
  | ok a => exact pure (hok a rfl)
  | error cause => exact throw (herror cause rfl)

theorem ofDescriptor {result : Except Malformed α}
    (h : ∀ cause, result = .error cause → E (.badDescriptor cause)) :
    Tries I (ofDescriptor result) (fun a => result = .ok a) E := by
  cases result with
  | ok a => exact pure rfl
  | error cause => exact throw (h cause rfl)

end Tries

/-- How the steps that instructions consist of behave under an invariant `I` of
    states, whose values satisfy `V`: an operand that is taken alone satisfies
    `O`, the local variables in `S` may be used, and the causes of failures are
    in `E`.  Replacing values is not among these steps. -/
structure BasicRules (I : FlowState → Prop) (V O : Value → Prop) (S : UInt16 → Prop)
    (E : Invalid → Prop) : Prop where
  plain : ∀ v : Value, v.Plain → V v
  push : ∀ v, V v → Tries I (push v) (fun _ => True) E
  pop : Tries I pop V E
  popOne : Tries I popOne (fun v => O v ∧ V v) E
  load : ∀ slot, S slot → Tries I (load slot) V E
  store : ∀ slot v, S slot → V v → Tries I (store slot v) (fun _ => True) E

/-- How all steps behave that instructions consist of. -/
structure Rules (I : FlowState → Prop) (V O : Value → Prop) (S : UInt16 → Prop)
    (E : Invalid → Prop) : Prop extends BasicRules I V O S E where
  /-- An operand becomes an instance of a class. -/
  replace : ∀ before name, O before →
    Tries I (replace before (.object name)) (fun _ => True) E

end FlowStep

/-! ## Instructions -/

namespace Flow

open FlowStep

theorem object_of_constructed {owner callee : String} {instructions : Array Instruction}
    {receiver left : Value} (h : constructed owner instructions callee receiver = .ok left) :
    ∃ name, left = .object name := by
  unfold constructed at h
  split at h
  next => cases h; exact ⟨_, rfl⟩
  next =>
    obtain ⟨name, -, hdone⟩ := Result.bind_eq_ok.mp h
    cases hdone
    exact ⟨name, rfl⟩
  next => cases h; exact ⟨_, rfl⟩

/-- What an instruction without operands does. -/
inductive SimpleStep (opcode : UInt8) : FlowStep Unit → Prop
  | stackOp (op : StackOp) : SimpleStep opcode op.run
  | nothing : SimpleStep opcode (pure ())
  | constant {value : Value} (h : value.Plain) : SimpleStep opcode (push value)
  | unary {result : Value} (h : result.Plain) : SimpleStep opcode (unary result)
  | binary {result : Value} (h : result.Plain) : SimpleStep opcode (binary result)
  | discard (count : Nat) : SimpleStep opcode (popMany count)
  | element (h : opcode = 0x32) :
    SimpleStep opcode (popOne >>= fun _ => popOne >>= fun array => arrayElement array >>= push)
  | refused (h : ¬ Opcode.IsPlain opcode) :
    SimpleStep opcode (throw (.takesOperands opcode))

theorem SimpleStep.ite {opcode : UInt8} {x y : FlowStep Unit} {c : Prop} [Decidable c]
    (hx : c → SimpleStep opcode x) (hy : ¬ c → SimpleStep opcode y) :
    SimpleStep opcode (if c then x else y) := by
  split
  next h => exact hx h
  next h => exact hy h

/-- **Instructions without operands do one of these things.** -/
theorem simpleStep (opcode : UInt8) : SimpleStep opcode (simple opcode) := by
  unfold simple
  split
  next op _ => exact .stackOp op
  next =>
    have hshift : (if (opcode - 0x78) % 2 = 0 then Value.integer else Value.long).Plain := by
      split <;> nofun
    refine .ite (fun _ => .nothing) fun _ => ?_
    refine .ite (fun _ => .constant nofun) fun _ => ?_
    refine .ite (fun _ => .constant nofun) fun _ => ?_
    refine .ite (fun _ => .constant nofun) fun _ => ?_
    refine .ite (fun _ => .constant nofun) fun _ => ?_
    refine .ite (fun _ => .constant nofun) fun h0f => ?_
    refine .ite (fun h2e => .refused ?_) fun _ => ?_
    · grind [Opcode.IsPlain]
    refine .ite (fun _ => .binary nofun) fun _ => ?_
    refine .ite (fun _ => .binary nofun) fun _ => ?_
    refine .ite (fun _ => .binary nofun) fun _ => ?_
    refine .ite .element fun _ => ?_
    refine .ite (fun _ => .binary nofun) fun h35 => ?_
    refine .ite (fun h4f => .refused ?_) fun _ => ?_
    · grind [Opcode.IsPlain]
    refine .ite (fun _ => .discard 3) fun _ => ?_
    refine .ite (fun _ => .binary (plain_arithmeticType _)) fun _ => ?_
    refine .ite (fun _ => .unary (plain_arithmeticType _)) fun _ => ?_
    refine .ite (fun _ => .binary hshift) fun _ => ?_
    refine .ite (fun hiinc => .refused ?_) fun _ => ?_
    · grind [Opcode.IsPlain]
    refine .ite (fun _ => .unary (plain_conversionType _)) fun _ => ?_
    refine .ite (fun _ => .binary nofun) fun h98 => ?_
    refine .ite (fun hreturn => .refused ?_) fun _ => ?_
    · grind [Opcode.IsPlain]
    refine .ite (fun _ => .discard 1) fun hvoid => ?_
    refine .ite (fun _ => .nothing) fun hvoid' => ?_
    refine .ite (fun _ => .unary nofun) fun hlength => ?_
    refine .ite (fun _ => .discard 1) fun hthrow => .refused ?_
    grind [Opcode.IsPlain]

end Flow

namespace FlowStep

variable {I : FlowState → Prop} {V O : Value → Prop} {S : UInt16 → Prop} {E : Invalid → Prop}

namespace BasicRules

variable (rules : BasicRules I V O S E)
include rules

/-- Values that come from no `new` instruction may always be pushed. -/
theorem pushPlain {value : Value} (h : value.Plain) : Tries I (FlowStep.push value) (fun _ => True) E :=
  rules.push value (rules.plain value h)

theorem pushAll {values : List Value} (h : ∀ v ∈ values, V v) :
    Tries I (FlowStep.pushAll values) (fun _ => True) E := by
  induction values with
  | nil => exact .pure trivial
  | cons value values ih =>
    obtain ⟨hvalue, hvalues⟩ := List.forall_mem_cons.mp h
    rw [pushAll_cons]
    exact (rules.push value hvalue).after fun _ => ih hvalues

theorem popMany (n : Nat) : Tries I (FlowStep.popMany n) (fun _ => True) E := by
  induction n with
  | zero => exact .pure trivial
  | succ n ih => exact rules.pop.after fun _ => ih

theorem stackOp (op : StackOp) : Tries I op.run (fun _ => True) E := by
  have hpop := rules.pop
  have hone := rules.popOne.mono fun _ h => h.2
  have hdone : Tries I (Pure.pure ()) (fun _ => True) E := .pure trivial
  cases op with
  | pop => exact hone.after fun _ => hdone
  | pop2 => exact hpop.after fun _ => .ite (fun _ => hdone) fun _ => hone.after fun _ => hdone
  | dup => exact hone.bind fun v1 h1 => rules.pushAll (by simp [h1])
  | dupX1 => exact hone.bind fun v1 h1 => hone.bind fun v2 h2 => rules.pushAll (by simp [h1, h2])
  | dupX2 =>
    refine hone.bind fun v1 h1 => hpop.bind fun v2 h2 => .ite (fun _ => ?_) fun _ => ?_
    · exact rules.pushAll (by simp [h1, h2])
    · exact hone.bind fun v3 h3 => rules.pushAll (by simp [h1, h2, h3])
  | dup2 =>
    refine hpop.bind fun v1 h1 => .ite (fun _ => ?_) fun _ => ?_
    · exact rules.pushAll (by simp [h1])
    · exact hone.bind fun v2 h2 => rules.pushAll (by simp [h1, h2])
  | dup2X1 =>
    refine hpop.bind fun v1 h1 => hone.bind fun v2 h2 => .ite (fun _ => ?_) fun _ => ?_
    · exact rules.pushAll (by simp [h1, h2])
    · exact hone.bind fun v3 h3 => rules.pushAll (by simp [h1, h2, h3])
  | dup2X2 =>
    refine hpop.bind fun v1 h1 => .ite (fun _ => ?_) fun _ => hone.bind fun v2 h2 => ?_
    · refine hpop.bind fun v2 h2 => .ite (fun _ => ?_) fun _ => ?_
      · exact rules.pushAll (by simp [h1, h2])
      · exact hone.bind fun v3 h3 => rules.pushAll (by simp [h1, h2, h3])
    · refine hpop.bind fun v3 h3 => .ite (fun _ => ?_) fun _ => ?_
      · exact rules.pushAll (by simp [h1, h2, h3])
      · exact hone.bind fun v4 h4 => rules.pushAll (by simp [h1, h2, h3, h4])
  | swap => exact hone.bind fun v1 h1 => hone.bind fun v2 h2 => rules.pushAll (by simp [h1, h2])

theorem unary {result : Value} (h : result.Plain) :
    Tries I (Flow.unary result) (fun _ => True) E :=
  rules.pop.after fun _ => rules.pushPlain h

theorem binary {result : Value} (h : result.Plain) :
    Tries I (Flow.binary result) (fun _ => True) E :=
  (rules.popMany 2).after fun _ => rules.pushPlain h

omit rules in
theorem arrayElement (helement : ∀ cause, E (.badDescriptor cause)) (array : Value) :
    Tries I (Flow.arrayElement array) Value.Plain E := by
  unfold Flow.arrayElement
  split
  next name =>
    refine .ite (fun _ => ?_) fun _ => .pure nofun
    exact (Tries.ofDescriptor fun cause _ => helement cause).mono fun _ => Value.plain_ofDescriptor
  next => exact .pure nofun
  next => exact .pure nofun

theorem simple {opcode : UInt8} (hE : ∀ cause, (Instruction.simple opcode).Fault cause → E cause)
    (helement : opcode = 0x32 → ∀ cause, E (.badDescriptor cause)) :
    Tries I (Flow.simple opcode) (fun _ => True) E := by
  have hstep := simpleStep opcode
  generalize Flow.simple opcode = step at hstep ⊢
  cases hstep with
  | stackOp op => exact rules.stackOp op
  | nothing => exact .pure trivial
  | constant h => exact rules.pushPlain h
  | unary h => exact rules.unary h
  | binary h => exact rules.binary h
  | discard count => exact rules.popMany count
  | element hopcode =>
    refine rules.popOne.after fun _ => rules.popOne.after fun array => ?_
    exact (arrayElement (helement hopcode) array).bind fun _ h => rules.pushPlain h
  | refused h => exact .throw (hE _ (.simple h))

theorem var {opcode : UInt8} {slot : UInt16} (hslot : S slot)
    (hE : ∀ cause, (Instruction.var opcode slot).Fault cause → E cause) :
    Tries I (Flow.var opcode slot) (fun _ => True) E := by
  have hload := rules.load slot hslot
  unfold Flow.var
  refine .ite (fun _ => rules.pushPlain nofun) fun _ => ?_
  refine .ite (fun _ => rules.pushPlain nofun) fun _ => ?_
  refine .ite (fun _ => rules.pushPlain nofun) fun _ => ?_
  refine .ite (fun _ => rules.pushPlain nofun) fun _ => ?_
  refine .ite (fun _ => hload.bind rules.push) fun _ => ?_
  refine .ite (fun _ => rules.pop.bind fun v hv => rules.store slot v hslot hv) fun _ => ?_
  refine .ite (fun _ => hload.after fun _ => .pure trivial) fun _ => .throw (hE _ (.var ?_))
  grind [Opcode.IsVariable]

theorem jump {opcode : UInt8} {target : Label}
    (hE : ∀ cause, (Instruction.jump opcode target).Fault cause → E cause) :
    Tries I (Flow.jump opcode) (fun _ => True) E := by
  unfold Flow.jump
  refine .ite (fun _ => rules.popOne.after fun _ => .pure trivial) fun _ => ?_
  refine .ite (fun _ => rules.popMany 2) fun _ => ?_
  refine .ite (fun _ => .pure trivial) fun _ => .throw (hE _ (.jump ?_))
  grind [Opcode.IsBranch]

theorem field {opcode : UInt8} {member : Member}
    (hE : ∀ cause, (Instruction.field opcode member).Fault cause → E cause) :
    Tries I (Flow.field opcode member) (fun _ => True) E := by
  refine Tries.bind (.ofDescriptor fun cause hcause => hE _ (.field (Result.map_eq_error.mp hcause)))
    fun value hvalue => ?_
  have hpush := rules.pushPlain (Value.plain_ofDescriptor hvalue)
  refine .ite (fun _ => hpush) fun _ => .ite (fun _ => rules.popMany 1) fun _ => ?_
  refine .ite (fun _ => rules.popOne.after fun _ => hpush) fun _ => ?_
  refine .ite (fun _ => rules.popMany 2) fun _ => .throw (hE _ (.access ?_))
  grind [Opcode.IsAccess]

theorem pushResult (type : MethodType) : Tries I (Flow.pushResult type) (fun _ => True) E := by
  unfold Flow.pushResult
  split
  next result _ => exact rules.pushPlain (Value.plain_ofType result)
  next => exact .pure trivial

section
variable {owner : String} {instructions : Array Instruction}

theorem method {opcode : UInt8} {member : Member} {interface : Bool}
    (hreplace : opcode = Opcode.invokespecial ∧ member.name = "<init>" →
      ∀ before name, O before → Tries I (replace before (.object name)) (fun _ => True) E)
    (hconstruct : ∀ callee receiver cause, V receiver →
      constructed owner instructions callee receiver = .error cause → E cause)
    (hE : ∀ cause, (Instruction.method opcode member interface).Fault cause → E cause) :
    Tries I (Flow.method owner instructions opcode member) (fun _ => True) E := by
  refine Tries.bind (.ofDescriptor fun cause hcause => hE _ (.method hcause)) fun type _ => ?_
  refine (rules.popMany _).after fun _ => .ite (fun _ => rules.pushResult type) fun _ => ?_
  refine rules.popOne.bind fun receiver ⟨hone, hreceiver⟩ => ?_
  refine .ite (fun hinit => ?_) fun _ => rules.pushResult type
  refine Tries.bind (.lift (fun _ => object_of_constructed) fun cause =>
    hconstruct _ _ cause hreceiver) ?_
  rintro _ ⟨name, rfl⟩
  exact (hreplace hinit receiver name hone).after fun _ => rules.pushResult type

theorem type {index : Label} {opcode : UInt8} {className : String}
    (hnew : opcode = Opcode.new → V (.uninitialized index))
    (hE : ∀ cause, (Instruction.type opcode className).Fault cause → E cause) :
    Tries I (Flow.type index opcode className) (fun _ => True) E := by
  have hone {value : Value} (h : value.Plain) :
      Tries I (do let _ ← FlowStep.popOne; FlowStep.push value) (fun _ => True) E :=
    rules.popOne.after fun _ => rules.pushPlain h
  refine .ite (fun hopcode => rules.push _ (hnew hopcode)) fun _ => ?_
  refine .ite (fun _ => hone nofun) fun _ => .ite (fun _ => hone nofun) fun _ => ?_
  exact .ite (fun _ => hone nofun) fun _ => .throw (hE _ (.type (by simp [*])))

omit rules in
theorem primitiveArray {atype : UInt8}
    (hE : ∀ cause, (Instruction.newArray atype).Fault cause → E cause) :
    Tries I (liftM (Flow.primitiveArray atype)) (fun _ => True) E := by
  refine .lift (fun _ _ => trivial) fun cause hcause => ?_
  unfold Flow.primitiveArray at hcause
  split at hcause
  case h_9 => cases hcause; exact hE _ (.newArray (by grind [Opcode.isArrayType]))
  all_goals exact nomatch hcause

/-- **Instructions behave as the steps do that they consist of**, but for their
    own faults and the array that `aaload` finds.  Only calls of constructors
    replace values. -/
theorem execute {index : Label} {i : Instruction} (hE : ∀ cause, i.Fault cause → E cause)
    (helement : i = .simple 0x32 → ∀ cause, E (.badDescriptor cause))
    (hreplace : i.Constructs →
      ∀ before name, O before → Tries I (replace before (.object name)) (fun _ => True) E)
    (hslot : ∀ slot ∈ i.slot?, S slot)
    (hnew : ∀ name, i = .type Opcode.new name → V (.uninitialized index))
    (hconstruct : ∀ callee receiver cause, V receiver →
      constructed owner instructions callee receiver = .error cause → E cause) :
    Tries I (Flow.execute owner instructions index i) (fun _ => True) E := by
  cases i with
  | simple opcode => exact rules.simple hE fun hopcode => helement (congrArg _ hopcode)
  | push opcode value => exact rules.pushPlain nofun
  | ldc constant =>
    refine Tries.bind (.ofDescriptor fun cause hcause => ?_) fun value hvalue =>
      rules.pushPlain (Value.plain_ofConstant hvalue)
    cases constant with
    | dynamic => exact hE _ (.constant (Result.map_eq_error.mp hcause))
    | integer | float | long | double | string | classRef | methodType | handle =>
      exact nomatch hcause
  | var opcode slot => exact rules.var (hslot slot rfl) hE
  | iinc slot increment => exact rules.store slot _ (hslot slot rfl) (rules.plain _ nofun)
  | jump opcode target => exact rules.jump hE
  | tableSwitch | lookupSwitch => exact rules.popOne.after fun _ => .pure trivial
  | field opcode member => exact rules.field hE
  | method opcode member interface =>
    refine rules.method (fun ⟨hopcode, hname⟩ => hreplace ?_) hconstruct hE
    exact ⟨member, interface, by rw [hopcode], hname⟩
  | invokeDynamic name descriptor bootstrap =>
    refine Tries.bind (.ofDescriptor fun cause hcause => hE _ (.callSite hcause)) fun type _ => ?_
    exact (rules.popMany _).after fun _ => rules.pushResult type
  | type opcode className =>
    exact rules.type (fun hopcode => hnew className (hopcode ▸ rfl)) hE
  | newArray atype =>
    exact rules.popOne.after fun _ => (primitiveArray hE).after fun _ => rules.pushPlain nofun
  | multiNewArray className dimensions =>
    exact (rules.popMany _).after fun _ => rules.pushPlain nofun

end

end BasicRules

/-- Where replacing values is allowed, so are all instructions. -/
theorem Rules.execute {owner : String} {instructions : Array Instruction} {index : Label}
    {i : Instruction} (rules : Rules I V O S E) (hE : ∀ cause, i.Fault cause → E cause)
    (helement : i = .simple 0x32 → ∀ cause, E (.badDescriptor cause))
    (hslot : ∀ slot ∈ i.slot?, S slot)
    (hnew : ∀ name, i = .type Opcode.new name → V (.uninitialized index))
    (hconstruct : ∀ callee receiver cause, V receiver →
      constructed owner instructions callee receiver = .error cause → E cause) :
    Tries I (Flow.execute owner instructions index i) (fun _ => True) E :=
  rules.toBasicRules.execute hE helement (fun _ => rules.replace) hslot hnew hconstruct

end FlowStep

end JvmClass
