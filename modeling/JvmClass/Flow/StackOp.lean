/-
  The instructions that rearrange the operand stack.

  * `StackOp` names them; `StackOp.run` runs one on whole values.  Whether the
    second or a later value is treated as one slot or two depends on the sizes
    of the values above it.
-/
import JvmClass.Flow.State

namespace JvmClass

/-- An instruction that rearranges the operand stack. -/
inductive StackOp where
  | pop | pop2 | dup | dupX1 | dupX2 | dup2 | dup2X1 | dup2X2 | swap
  deriving DecidableEq, Repr

namespace StackOp

/-- The instruction with an operation code. -/
def ofOpcode? (opcode : UInt8) : Option StackOp :=
  match opcode with
  | 0x57 => some pop
  | 0x58 => some pop2
  | 0x59 => some dup
  | 0x5a => some dupX1
  | 0x5b => some dupX2
  | 0x5c => some dup2
  | 0x5d => some dup2X1
  | 0x5e => some dup2X2
  | 0x5f => some swap
  | _ => none

open FlowStep in
/-- Run an instruction that rearranges the stack. -/
def run : StackOp → FlowStep Unit
  | pop => do
    let _ ← popOne
  | pop2 => do
    let v1 ← FlowStep.pop
    unless v1.isWide do
      let _ ← popOne
  | dup => do
    let v1 ← popOne
    pushAll [v1, v1]
  | dupX1 => do
    let v1 ← popOne
    let v2 ← popOne
    pushAll [v1, v2, v1]
  | dupX2 => do
    let v1 ← popOne
    let v2 ← FlowStep.pop
    if v2.isWide then pushAll [v1, v2, v1]
    else
      let v3 ← popOne
      pushAll [v1, v3, v2, v1]
  | dup2 => do
    let v1 ← FlowStep.pop
    if v1.isWide then pushAll [v1, v1]
    else
      let v2 ← popOne
      pushAll [v2, v1, v2, v1]
  | dup2X1 => do
    let v1 ← FlowStep.pop
    let v2 ← popOne
    if v1.isWide then pushAll [v1, v2, v1]
    else
      let v3 ← popOne
      pushAll [v2, v1, v3, v2, v1]
  | dup2X2 => do
    let v1 ← FlowStep.pop
    if v1.isWide then
      let v2 ← FlowStep.pop
      if v2.isWide then pushAll [v1, v2, v1]
      else
        let v3 ← popOne
        pushAll [v1, v3, v2, v1]
    else
      let v2 ← popOne
      let v3 ← FlowStep.pop
      if v3.isWide then pushAll [v2, v1, v3, v2, v1]
      else
        let v4 ← popOne
        pushAll [v2, v1, v4, v3, v2, v1]
  | swap => do
    let v1 ← popOne
    let v2 ← popOne
    pushAll [v1, v2]

end StackOp

end JvmClass
