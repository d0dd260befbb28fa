/-
  Running single instructions without going past the locals.

  * `Checked.Step` is a step of the interpretation that stops at an index out of
    range;
  * `Checked.store_eq`: whatever is stored wherever, the slots that change are
    those of locals;
  * `Checked.execute_eq`: an instruction that is there runs in any state.
-/
import JvmClass.Flow.Execute
import JvmClass.Proofs.Checked.Descriptor

namespace JvmClass.Checked

/-- A step of the interpretation that stops at an index out of range. -/
abbrev Step := StateT FlowState (Checked Invalid)

/-- A step that uses no index. -/
def ofStep {α : Type} (step : FlowStep α) : Step α := fun state => ofExcept (step state)

theorem ofStep_bind {α β : Type} (x : FlowStep α) (f : α → FlowStep β) :
    (ofStep x >>= fun a => ofStep (f a)) = ofStep (x >>= f) := by
  funext state
  exact bind_ofExcept fun _ _ => rfl

/-! ## Locals -/

/-- The locals with `value` in the slot `index`. -/
def setLocal (locals : List Value) (index : Nat) (value : Value) : Checked Invalid (List Value) := do
  require (index < locals.length)
  return locals.set index value

theorem setLocal_eq {locals : List Value} {index : Nat} (h : index < locals.length) (value : Value) :
    setLocal locals index value = pure (locals.set index value) := by
  rw [setLocal, require_of h, pure_bind]

/-- The locals before something is stored at `index`: if that is the second half
    of a `long` or a `double`, its first half is lost. -/
def clearLocal (locals : List Value) (index : Nat) : Checked Invalid (List Value) :=
  if 0 < index then do
    let before ← found locals[index - 1]?
    if before.isWide then setLocal locals (index - 1) .top else return locals
  else return locals

/-- The locals with `value` at `index`; a value that takes two slots (`wide`)
    fills the next one as well. -/
def storeLocal (locals : List Value) (index : Nat) (value : Value) (wide : Bool) :
    Checked Invalid (List Value) := do
  let locals ← clearLocal locals index
  let locals ← setLocal locals index value
  if wide then setLocal locals (index + 1) .top else return locals

theorem clearLocal_eq {locals : List Value} {index : Nat} (h : index < locals.length) :
    clearLocal locals index =
      pure (if 0 < index ∧ (locals[index - 1]?.map Value.isWide) = some true then
        locals.set (index - 1) .top else locals) := by
  have hbefore : index - 1 < locals.length := Nat.lt_of_le_of_lt (Nat.sub_le ..) h
  unfold clearLocal
  rw [List.getElem?_eq_getElem hbefore, setLocal_eq hbefore]
  by_cases hpos : 0 < index
  · simp only [hpos, if_true, true_and, Option.map_some, Option.some.injEq, found, pure_bind]
    split
    next => rfl
    next => rfl
  · simp only [hpos, if_false, false_and]

theorem storeLocal_eq {locals : List Value} {index : Nat} {wide : Bool}
    (hindex : index < locals.length) (hwide : wide = true → index + 1 < locals.length)
    (value : Value) :
    storeLocal locals index value wide =
      pure (FlowState.storeLocal locals index value wide) := by
  unfold storeLocal FlowState.storeLocal
  rw [clearLocal_eq hindex, pure_bind]
  dsimp only
  have hcleared : ∀ cleared : List Value,
      cleared = (if 0 < index ∧ (locals[index - 1]?.map Value.isWide) = some true then
        locals.set (index - 1) .top else locals) → cleared.length = locals.length := by
    rintro cleared rfl
    split
    next => exact List.length_set
    next => rfl
  generalize (if 0 < index ∧ (locals[index - 1]?.map Value.isWide) = some true then
    locals.set (index - 1) .top else locals) = cleared at hcleared ⊢
  have hlength := hcleared cleared rfl
  rw [setLocal_eq (by omega), pure_bind]
  split
  next h => exact setLocal_eq (by rw [List.length_set, hlength]; exact hwide h) _
  next => rfl

/-- Store a value in a local variable. -/
def store (index : UInt16) (value : Value) : Step Unit := do
  let state ← get
  let count := state.locals.length
  if index.toNat + value.size ≤ count then
    let locals ← storeLocal state.locals index.toNat value value.isWide
    set { state with locals := locals }
  else if state.lenient ∧ index.toNat < count then
    let locals ← storeLocal state.locals index.toNat value false
    set { state with locals := locals }
  else throw (.localRange index)

/-- **What is stored changes slots of locals alone**, in every state. -/
theorem store_eq (index : UInt16) (value : Value) :
    store index value = ofStep (FlowStep.store index value) := by
  funext state
  change (store index value).run state = ofExcept ((FlowStep.store index value).run state)
  simp only [store, FlowStep.store, StateT.run_bind, StateT.run_get, pure_bind]
  by_cases hfits : index.toNat + value.size ≤ state.locals.length
  · have hindex : index.toNat < state.locals.length := by
      unfold Value.size at hfits
      split at hfits <;> omega
    have hwide (h : value.isWide = true) : index.toNat + 1 < state.locals.length := by
      unfold Value.size at hfits
      rw [if_pos h] at hfits
      exact hfits
    rw [if_pos hfits, if_pos hfits, storeLocal_eq hindex hwide]
    rfl
  · rw [if_neg hfits, if_neg hfits]
    by_cases hlenient : state.lenient = true ∧ index.toNat < state.locals.length
    · have hwide (h : false = true) : index.toNat + 1 < state.locals.length := nomatch h
      rw [if_pos hlenient, if_pos hlenient, storeLocal_eq hlenient.2 hwide]
      rfl
    · rw [if_neg hlenient, if_neg hlenient]
      rfl

/-! ## Instructions -/

open JvmClass.Flow FlowStep

/-- The value at an index of an array. -/
def arrayElement : Value → Step Value
  | .known (.object name) =>
    if isArrayName name then do
      let (_, component) ← (found (Letters.cut 1 name.toList) : Checked Invalid _)
      ofStep (FlowStep.ofDescriptor (Value.ofDescriptor (String.ofList component)))
    else return .object objectClass
  | .known .null => return .null
  | _ => return .object objectClass

theorem arrayElement_eq (value : Value) : arrayElement value = ofStep (Flow.arrayElement value) := by
  cases value with
  | returnAddress => rfl
  | known type =>
    cases type with
    | object name =>
      unfold arrayElement Flow.arrayElement
      dsimp only
      by_cases harray : isArrayName name = true
      · obtain ⟨rest, hname⟩ : ∃ rest, name.toList = '[' :: rest :=
          List.head?_eq_some_iff.mp (beq_iff_eq.mp harray)
        rw [if_pos harray, if_pos harray, hname]
        have hcut : Letters.cut 1 ('[' :: rest) = some (['['], rest) := Letters.cut_append ['['] rest
        rw [hcut]
        rfl
      · rw [if_neg harray, if_neg harray]
        rfl
    | _ => rfl

/-- Run the instruction at the label `index` in a method body of the class
    `owner`. -/
def execute (owner : String) (instructions : Array Instruction) (index : Label) : Step Unit := do
  let instruction ← (found instructions[index]? : Checked Invalid _)
  match instruction with
  | .simple opcode =>
    if opcode = 0x32 then
      let _ ← ofStep popOne
      let element ← arrayElement (← ofStep popOne)
      ofStep (push element)
    else ofStep (Flow.simple opcode)
  | .var opcode slot =>
    if Opcode.istore ≤ opcode ∧ opcode ≤ Opcode.astore then store slot (← ofStep pop)
    else ofStep (Flow.var opcode slot)
  | .iinc slot _ => store slot .integer
  | instruction => ofStep (Flow.execute owner instructions index instruction)

theorem var_of_store {opcode : UInt8} (h : Opcode.istore ≤ opcode ∧ opcode ≤ Opcode.astore)
    (slot : UInt16) : Flow.var opcode slot = (do FlowStep.store slot (← pop)) := by
  have hne {other : UInt8} (hlt : other < Opcode.istore) : opcode ≠ other := fun heq =>
    UInt8.not_le.mpr hlt (heq ▸ h.1)
  rw [Flow.var, if_neg (hne (by decide)), if_neg (hne (by decide)), if_neg (hne (by decide)),
    if_neg (hne (by decide)), if_neg (hne (by decide)), if_pos h]

/-- **An instruction that is there runs in any state.** -/
theorem execute_eq {owner : String} {instructions : Array Instruction} {index : Label}
    {instruction : Instruction} (h : instructions[index]? = some instruction) :
    execute owner instructions index =
      ofStep (Flow.execute owner instructions index instruction) := by
  unfold execute
  rw [h, show (found (some instruction) : Checked Invalid _) = pure instruction from rfl, liftM_pure,
    pure_bind]
  cases instruction with
  | simple opcode =>
    dsimp only
    split
    next helement =>
      subst helement
      simp only [arrayElement_eq, ofStep_bind]
      rfl
    next => rfl
  | var opcode slot =>
    dsimp only
    split
    next hstore =>
      rw [Flow.execute, var_of_store hstore]
      simp only [store_eq, ofStep_bind]
    next => rfl
  | iinc slot increment => exact store_eq _ _
  | _ => rfl

end JvmClass.Checked
