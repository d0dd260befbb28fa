/-
  A position in a string of bytes, and reading from it.

  * `Cursor` is a string of bytes with a position, which may lie past the end;
    `Cursor.rest` is the part of the string still ahead;
  * `Reader α` reads an `α` at a cursor or says why it cannot, and leaves the
    cursor where it stopped;
  * `take k` reads `k` bytes: it succeeds exactly when that many are ahead
    (`take_of_le`), and otherwise does not move (`take_of_lt`);
  * `u1`, `u2`, `u4`, `u8` and `i1`, `i2`, `i4`, `i8` read big-endian words,
    `within k r` runs `r` on the next `k` bytes alone;
  * `Reader.times n r` runs `r` `n` times and `Reader.fold n s f` threads a
    state through `n` runs.
-/
import JvmClass.Bytes.BigEndian
import JvmClass.Malformed

namespace JvmClass

/-- A string of bytes and the position of the next byte to read. -/
structure Cursor where
  bytes : Array UInt8
  position : Nat

/-- Reading an `α` at a cursor. -/
abbrev Reader := EStateM Malformed Cursor

namespace Cursor

/-- The cursor at the start of `bytes`. -/
def ofBytes (bytes : Bytes) : Cursor := ⟨bytes.toArray, 0⟩

/-- The bytes ahead of the cursor. -/
def rest (c : Cursor) : Bytes := c.bytes.toList.drop c.position

/-- How many bytes are ahead of the cursor. -/
def remaining (c : Cursor) : Nat := c.bytes.size - c.position

/-- Whether no byte is ahead of the cursor. -/
def isEmpty (c : Cursor) : Bool := c.remaining == 0

/-- The `k` bytes after the position. -/
def slice (c : Cursor) (k : Nat) : Bytes :=
  (c.bytes.extract c.position (c.position + k)).toList

@[simp] theorem length_rest (c : Cursor) : c.rest.length = c.remaining := by
  simp [rest, remaining]

theorem slice_eq_take (c : Cursor) (k : Nat) : c.slice k = c.rest.take k := by
  simp [slice, rest, List.take_drop, Nat.add_comm]

end Cursor

namespace Reader

/-- What `result` holds, without moving. -/
def ofExcept {α : Type} : Except Malformed α → Reader α
  | .ok a => pure a
  | .error cause => throw cause

instance : MonadLift (Except Malformed) Reader := ⟨ofExcept⟩

/-- Move to `position`, which may lie past the end. -/
def seek (position : Nat) : Reader Unit := modify fun c => { c with position := position }

/-- The position of the next byte. -/
def position : Reader Nat := do return (← get).position

/-- How many bytes are ahead. -/
def remaining : Reader Nat := do return (← get).remaining

/-- Read the next `k` bytes. -/
def take (k : Nat) : Reader Bytes := fun c =>
  if c.position + k ≤ c.bytes.size then
    .ok (c.slice k) { c with position := c.position + k }
  else
    .error (.unexpectedEnd c.position k c.remaining) c

/-- Move over the next `k` bytes. -/
def skip (k : Nat) : Reader Unit := do let _ ← take k

/-- Read all bytes ahead. -/
def takeRest : Reader Bytes := do take (← remaining)

/-- Move over all bytes ahead. -/
def skipRest : Reader Unit := do skip (← remaining)

/-- The unsigned number in the next `k` bytes. -/
def number (k : Nat) : Reader Nat := do return (← take k).toNat

def u1 : Reader UInt8 := do return UInt8.ofNat (← number 1)
def u2 : Reader UInt16 := do return UInt16.ofNat (← number 2)
def u4 : Reader UInt32 := do return UInt32.ofNat (← number 4)
def u8 : Reader UInt64 := do return UInt64.ofNat (← number 8)
def i1 : Reader Int8 := do return (← u1).toInt8
def i2 : Reader Int16 := do return (← u2).toInt16
def i4 : Reader Int32 := do return (← u4).toInt32
def i8 : Reader Int64 := do return (← u8).toInt64

/-- A cursor over the next `k` bytes alone, which are moved over. -/
def sub (k : Nat) : Reader Cursor := do return .ofBytes (← take k)

/-- What `reader` reads at the start of `bytes`, and the cursor after it. -/
def runOn {α : Type} (reader : Reader α) (bytes : Bytes) : Except Malformed (α × Cursor) :=
  match reader (.ofBytes bytes) with
  | .ok a c => .ok (a, c)
  | .error cause _ => .error cause

/-- Run `reader` on the next `k` bytes alone and move over them. -/
def within {α : Type} (k : Nat) (reader : Reader α) : Reader α := do
  let (a, _) ← reader.runOn (← take k)
  return a

/-- Thread a state through `n` runs. -/
def fold {σ : Type} (step : σ → Reader σ) : (n : Nat) → (state : σ) → Reader σ
  | 0, state => pure state
  | n + 1, state => do
    let next ← step state
    fold step n next

/-- Run `reader` `n` times, after the results `done` in reverse. -/
def timesRev {α : Type} (reader : Reader α) : (n : Nat) → (done : List α) → Reader (List α)
  | 0, done => pure done.reverse
  | n + 1, done => do
    let a ← reader
    timesRev reader n (a :: done)

/-- Run `reader` `n` times. -/
def times {α : Type} (n : Nat) (reader : Reader α) : Reader (List α) := timesRev reader n []

/-! ## What reading does -/

theorem take_of_le {k : Nat} {c : Cursor} (h : c.position + k ≤ c.bytes.size) :
    take k c = .ok (c.slice k) { c with position := c.position + k } := by
  simp [take, h]

theorem take_of_lt {k : Nat} {c : Cursor} (h : c.bytes.size < c.position + k) :
    take k c = .error (.unexpectedEnd c.position k c.remaining) c := by
  simp [take, Nat.not_le.mpr h]

end Reader

end JvmClass
