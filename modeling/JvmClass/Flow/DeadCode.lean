/-
  Unreachable instructions.

  * `Flow.deadRanges` are the maximal ranges of instructions that were not
    reached, and `Flow.bury` replaces each by `nop`s that end in an `athrow`;
  * `Flow.cutTable` takes ranges out of an exception table: an entry that
    covers one is cut in two, and what covers nothing is dropped;
    `Flow.removeRanges` does so where there are any.
-/
import JvmClass.Record

namespace JvmClass.Flow

/-- The maximal ranges of `false` in a list, whose first element has the index
    `index`; a range that is open began at `start`. -/
def deadRangesFrom (index : Nat) (start : Option Nat) : List Bool → List (Nat × Nat)
  | [] => (start.map fun s => (s, index)).toList
  | true :: rest =>
    (start.map fun s => (s, index)).toList ++ deadRangesFrom (index + 1) none rest
  | false :: rest => deadRangesFrom (index + 1) (some (start.getD index)) rest

/-- The maximal ranges of instructions that were not reached. -/
def deadRanges (reached : List Bool) : List (Nat × Nat) := deadRangesFrom 0 none reached

/-- The instructions with every unreachable range replaced by `nop`s that end
    in an `athrow`. -/
def bury (reached : Array Bool) (instructions : List Instruction) : List Instruction :=
  instructions.mapIdx fun index instruction =>
    if reached[index]? = some false then
      if reached[index + 1]? = some false then .simple Opcode.nop else .simple Opcode.athrow
    else instruction

/-- What is left of an exception table entry from the label `start` on, when
    ascending, disjoint ranges are taken out of it. -/
def cut (handler : ExceptionHandler) (start : Label) :
    List (Nat × Nat) → List ExceptionHandler
  | [] => if start < handler.stop then [{ handler with start := start }] else []
  | (first, last) :: rest =>
    if last ≤ start ∨ first ≥ handler.stop then cut handler start rest
    else
      (if first > start then [{ handler with start := start, stop := first }] else []) ++
        cut handler (min last handler.stop) rest

/-- An exception table without ascending, disjoint ranges of instructions. -/
def cutTable (table : List ExceptionHandler) (ranges : List (Nat × Nat)) :
    List ExceptionHandler :=
  table.flatMap fun handler => cut handler handler.start ranges

/-- An exception table without ascending, disjoint ranges of instructions;
    where there are none, it stays as it is. -/
def removeRanges (table : List ExceptionHandler) (ranges : List (Nat × Nat)) :
    List ExceptionHandler :=
  if ranges.isEmpty then table else cutTable table ranges

end JvmClass.Flow
