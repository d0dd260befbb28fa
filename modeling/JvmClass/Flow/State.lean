/-
  States of the abstract interpretation.

  * a `FlowState` holds a value for every local variable slot, where the slot
    after a `long` or a `double` is `top`, and a value for every operand, the
    top of the stack first;
  * in a *lenient* state an empty stack gives `top` and the sizes of values
    are not checked, which is enough to measure code that does not verify;
  * `FlowStep` is a step that may fail; `pop`, `push`, `load`, `store` and
    `replace` are the steps that instructions are made of;
  * `FlowState.frame` is what a frame shows of a state.
-/
import JvmClass.Invalid

namespace JvmClass

/-- The values of the local variable slots and of the operands, the top of the
    stack first. -/
structure FlowState where
  locals : List Value
  stack : List Value
  lenient : Bool
  deriving DecidableEq

/-- A step of the interpretation. -/
abbrev FlowStep := StateT FlowState (Except Invalid)

namespace FlowState

/-- How many slots the operands take. -/
def stackSize (state : FlowState) : Nat := (state.stack.map Value.size).foldr (· + ·) 0

/-- What a frame shows of local variable slots, after the locals `done` in
    reverse.  The slot after a `long` or a `double` is not shown. -/
def frameLocalsRev (done : List VerificationType) : List Value → List VerificationType
  | [] => done
  | [value] => value.verificationType :: done
  | value :: next :: rest =>
    if value.isWide then frameLocalsRev (value.verificationType :: done) rest
    else frameLocalsRev (value.verificationType :: done) (next :: rest)

/-- What a frame shows of local variable slots; `top` at the end is left
    out. -/
def frameLocals (locals : List Value) : List VerificationType :=
  ((frameLocalsRev [] locals).dropWhile (· == .top)).reverse

/-- The frame at the label `target` in a state. -/
def frame (state : FlowState) (target : Label) : Frame where
  target := target
  locals := frameLocals state.locals
  stack := (state.stack.map Value.verificationType).reverse

/-- The locals with `value` at `index`.  If that was the second half of a
    `long` or a `double`, its first half is lost; a value that takes two slots
    (`wide`) fills the next one as well. -/
def storeLocal (locals : List Value) (index : Nat) (value : Value) (wide : Bool) : List Value :=
  let halved := 0 < index ∧ (locals[index - 1]?.map Value.isWide) = some true
  let locals := if halved then locals.set (index - 1) .top else locals
  let locals := locals.set index value
  if wide then locals.set (index + 1) .top else locals

/-- The state with `after` for every value `before`. -/
def replaceAll (state : FlowState) (before after : Value) : FlowState :=
  let replace (value : Value) : Value := if value = before then after else value
  { state with locals := state.locals.map replace, stack := state.stack.map replace }

end FlowState

namespace FlowStep

/-- What `result` holds, without changing the state. -/
def ofDescriptor {α : Type} : Except Malformed α → FlowStep α
  | .ok a => pure a
  | .error cause => throw (.badDescriptor cause)

/-- Push a value. -/
def push (value : Value) : FlowStep Unit :=
  modify fun state => { state with stack := value :: state.stack }

/-- Push values, the last one to the top. -/
def pushAll (values : List Value) : FlowStep Unit :=
  modify fun state => { state with stack := values.reverse ++ state.stack }

/-- Pop a value. -/
def pop : FlowStep Value := do
  let state ← get
  match state.stack with
  | value :: rest =>
    set { state with stack := rest }
    return value
  | [] => if state.lenient then return .top else throw .stackUnderflow

/-- Pop a value that takes one slot. -/
def popOne : FlowStep Value := do
  let value ← pop
  if value.isWide ∧ ¬ (← get).lenient then throw (.notOneSlot value)
  return value

/-- Pop `n` values. -/
def popMany : (n : Nat) → FlowStep Unit
  | 0 => return ()
  | n + 1 => do
    let _ ← pop
    popMany n

/-- The value of a local variable. -/
def load (index : UInt16) : FlowStep Value := do
  match (← get).locals[index.toNat]? with
  | some value => return value
  | none => throw (.localRange index)

/-- Store a value in a local variable.  A lenient state lets a `long` or a
    `double` stick out past the last slot. -/
def store (index : UInt16) (value : Value) : FlowStep Unit := do
  let state ← get
  let count := state.locals.length
  if index.toNat + value.size ≤ count then
    set { state with locals := FlowState.storeLocal state.locals index.toNat value value.isWide }
  else if state.lenient ∧ index.toNat < count then
    set { state with locals := FlowState.storeLocal state.locals index.toNat value false }
  else throw (.localRange index)

/-- Replace every occurrence of a value. -/
def replace (before after : Value) : FlowStep Unit :=
  modify fun state => state.replaceAll before after

end FlowStep

end JvmClass
