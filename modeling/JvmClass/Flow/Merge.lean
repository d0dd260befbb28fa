/-
  Merging states where paths meet.

  * a `Hierarchy` answers which class two classes have in common;
  * `Flow.mergeValue` is what is known of a value that comes from two paths;
  * `Flow.mergeState` merges a state into the one that an instruction was
    entered with before.  The stacks must have the same shape, unless the
    states are lenient: then the larger stack is kept.
-/
import JvmClass.Flow.Execute

namespace JvmClass

/-- Knowledge about super classes: the closest one that two different classes
    have in common. -/
structure Hierarchy where
  commonSuperClass : (left right : String) → String

/-- The hierarchy that knows no class: only `java/lang/Object` is common. -/
def Hierarchy.trivial : Hierarchy := ⟨fun _ _ => objectClass⟩

namespace Flow

variable (hierarchy : Hierarchy)

/-- What is known of a value that is `left` on one path and `right` on the
    other. -/
def mergeValue (left right : Value) : Value :=
  if left = right then left
  else
    match left, right with
    | .known .null, .known (.object name) | .known (.object name), .known .null => .object name
    | .known (.object left), .known (.object right) =>
      if isArrayName left || isArrayName right then .object objectClass
      else .object (hierarchy.commonSuperClass left right)
    | _, _ => .top

/-- Merge lists of values; where one is shorter, the rest of `existing`
    stays. -/
def mergeValues (existing incoming : List Value) : List Value :=
  List.zipWith (mergeValue hierarchy) existing incoming ++ existing.drop incoming.length

/-- The lowest operands that differ in size between two stacks. -/
def sizeMismatch? (existing incoming : List Value) : Option (Value × Value) :=
  (existing.zip incoming).reverse.find? fun (a, b) => a.isWide != b.isWide

/-- Merge stacks of the same height into a state with merged locals. -/
def mergeStacks (existing incoming : FlowState) : Except Invalid FlowState :=
  match if existing.lenient then none else sizeMismatch? existing.stack incoming.stack with
  | some (a, b) => throw (.entrySizes a b)
  | none =>
    return { existing with
      locals := mergeValues hierarchy existing.locals incoming.locals
      stack := mergeValues hierarchy existing.stack incoming.stack }

/-- Merge `incoming` into the state that an instruction was entered with
    before. -/
def mergeState (existing incoming : FlowState) : Except Invalid FlowState :=
  if existing.stack.length = incoming.stack.length then mergeStacks hierarchy existing incoming
  else if existing.lenient then
    if incoming.stackSize > existing.stackSize then
      return { existing with stack := incoming.stack }
    else return existing
  else throw (.stackHeights existing.stack.length incoming.stack.length)

/-- The state that an instruction is entered with from now on, and whether
    that is news. -/
def mergeEntry (entry : Option FlowState) (incoming : FlowState) :
    Except Invalid (FlowState × Bool) :=
  match entry with
  | none => return (incoming, true)
  | some existing => do
    let merged ← mergeState hierarchy existing incoming
    return (merged, merged != existing)

end Flow

end JvmClass
