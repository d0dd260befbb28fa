/-
  What instructions keep of a strict state.

  * `FlowStep.Keeps I step P`: `step` keeps the invariant `I` of states, and
    what it returns satisfies `P`;
  * `FlowStep.StrictInvariant` are the invariants of strict states that depend
    on their locals, and on what their values have in common: the two ways in
    which instructions change locals keep them;
  * `keeps_execute`: every instruction keeps such an invariant;
  * `FlowStep.StoreInvariant`: one of the two ways keeps the invariant, so that
    all instructions keep it but calls of constructors.
-/
import JvmClass.Proofs.Flow.Step

namespace JvmClass

namespace FlowStep

/-- `step` keeps the invariant `I`, and what it returns satisfies `P`. -/
def Keeps {α : Type} (I : FlowState → Prop) (step : FlowStep α) (P : α → Prop) : Prop :=
  ∀ s a t, I s → step s = .ok (a, t) → I t ∧ P a

/-- What it fails for does not matter. -/
theorem Keeps.tries {α : Type} {I : FlowState → Prop} {step : FlowStep α} {P : α → Prop}
    (h : Keeps I step P) : Tries I step P fun _ => True :=
  fun s hs => ⟨fun a t => h s a t hs, fun _ _ => trivial⟩

/-- An invariant of strict states, whose values satisfy `V`, that storing values
    keeps. -/
structure StoreInvariant (I : FlowState → Prop) (V : Value → Prop) : Prop where
  strict : ∀ s, I s → s.lenient = false
  locals : ∀ s, I s → ∀ v ∈ s.locals, V v
  operands : ∀ s, I s → ∀ v ∈ s.stack, V v
  plain : ∀ v : Value, v.Plain → V v
  /-- Operands do not matter but for what they have in common. -/
  stack : ∀ s stack, I s → (∀ v ∈ stack, V v) → I { s with stack := stack }
  store : ∀ s index value, I s → V value → index + value.size ≤ s.locals.length →
    I { s with locals := FlowState.storeLocal s.locals index value value.isWide }

/-- An invariant of strict states, whose values satisfy `V`. -/
structure StrictInvariant (I : FlowState → Prop) (V : Value → Prop) : Prop
    extends StoreInvariant I V where
  /-- An operand that takes one slot becomes an instance of a class. -/
  replace : ∀ s before name, I s → before.isWide = false → I (s.replaceAll before (.object name))

section
variable {I : FlowState → Prop} {V : Value → Prop} (hI : StoreInvariant I V)
include hI

theorem keeps_load (index : UInt16) : Keeps I (load index) V := by
  intro s a t hs hrun
  obtain ⟨_, _, hget, hrest⟩ := bind_eq_ok.mp hrun
  cases hget
  cases hvalue : s.locals[index.toNat]? with
  | some value =>
    simp only [hvalue] at hrest
    cases hrest
    exact ⟨hs, hI.locals s hs a (List.mem_of_getElem? hvalue)⟩
  | none =>
    simp only [hvalue] at hrest
    cases hrest

theorem keeps_push {value : Value} (h : V value) : Keeps I (push value) fun _ => True := by
  intro s a t hs hrun
  cases hrun
  exact ⟨hI.stack s _ hs (List.forall_mem_cons.mpr ⟨h, hI.operands s hs⟩), trivial⟩

theorem keeps_pop : Keeps I pop V := by
  intro s a t hs hrun
  have hstrict := hI.strict s hs
  have hoperands := hI.operands s hs
  obtain ⟨locals, stack, lenient⟩ := s
  obtain rfl : lenient = false := hstrict
  cases stack with
  | nil => exact nomatch hrun
  | cons value rest =>
    cases hrun
    obtain ⟨hvalue, hrest⟩ := List.forall_mem_cons.mp hoperands
    exact ⟨hI.stack _ rest hs hrest, hvalue⟩

/-- In a strict state the operand takes one slot. -/
theorem keeps_popOne : Keeps I popOne fun value => value.isWide = false ∧ V value := by
  intro s b u hs hrun
  obtain ⟨value, t, hpop, hrest⟩ := bind_eq_ok.mp hrun
  obtain ⟨ht, hvalue⟩ := keeps_pop hI s value t hs hpop
  change (if _ then _ else _ : FlowStep _) t = _ at hrest
  split at hrest
  next => exact nomatch hrest
  next hnarrow =>
    cases hrest
    refine ⟨ht, ?_, hvalue⟩
    cases hwide : b.isWide with
    | false => rfl
    | true => exact absurd ⟨hwide, by simp [hI.strict u ht]⟩ hnarrow

theorem keeps_store (index : UInt16) {value : Value} (h : V value) :
    Keeps I (store index value) fun _ => True := by
  intro s a t hs hrun
  rw [store_apply] at hrun
  split at hrun
  next hle => cases hrun; exact ⟨hI.store s index.toNat value hs h hle, trivial⟩
  next =>
    split at hrun
    next hlenient => exact absurd hlenient.1 (by simp [hI.strict s hs])
    next => exact nomatch hrun

/-- Basic steps keep such an invariant; an operand that is taken alone takes one
    slot. -/
theorem StoreInvariant.rules :
    BasicRules I V (fun v => v.isWide = false) (fun _ => True) fun _ => True where
  plain := hI.plain
  push _ h := (keeps_push hI h).tries
  pop := (keeps_pop hI).tries
  popOne := (keeps_popOne hI).tries
  load slot _ := (keeps_load hI slot).tries
  store slot _ _ h := (keeps_store hI slot h).tries

end

theorem keeps_replace {I : FlowState → Prop} {V : Value → Prop} (hI : StrictInvariant I V)
    {before : Value} (name : String) (h : before.isWide = false) :
    Keeps I (replace before (.object name)) fun _ => True := by
  intro s a t hs hrun
  cases hrun
  exact ⟨hI.replace s before name hs h, trivial⟩

end FlowStep

open FlowStep

/-- **Instructions other than calls of constructors keep what storing values
    keeps.** -/
theorem Flow.keeps_execute_of_not_constructs {I : FlowState → Prop} {V : Value → Prop}
    (hI : StoreInvariant I V) (owner : String) (instructions : Array Instruction) (index : Label)
    {i : Instruction} (hi : ¬ i.Constructs)
    (hnew : ∀ name, i = .type Opcode.new name → V (.uninitialized index)) :
    Keeps I (execute owner instructions index i) fun _ => True := by
  have htries : Tries I (execute owner instructions index i) (fun _ => True) fun _ => True :=
    hI.rules.execute (fun _ _ => trivial) (fun _ _ => trivial) (fun h => absurd h hi)
      (fun _ _ => trivial) hnew fun _ _ _ _ _ => trivial
  exact fun s a t hs hrun => (htries s hs).1 a t hrun

/-- **Instructions keep the invariants of strict states.** -/
theorem Flow.keeps_execute {I : FlowState → Prop} {V : Value → Prop} (hI : StrictInvariant I V)
    (owner : String) (instructions : Array Instruction) (index : Label) (i : Instruction)
    (hnew : ∀ name, i = .type Opcode.new name → V (.uninitialized index)) :
    Keeps I (execute owner instructions index i) fun _ => True := by
  have htries : Tries I (execute owner instructions index i) (fun _ => True) fun _ => True :=
    hI.rules.execute (fun _ _ => trivial) (fun _ _ => trivial)
      (fun _ _ name h => (keeps_replace hI name h).tries) (fun _ _ => trivial) hnew
      fun _ _ _ _ _ => trivial
  exact fun s a t hs hrun => (htries s hs).1 a t hrun

end JvmClass
