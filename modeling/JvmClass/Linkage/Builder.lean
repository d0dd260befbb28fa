/-
  Building the constant pool and the bootstrap method table of a class file.

  * a `Linker` holds both as far as they are filled; `Linking α` is a step
    that may add to them;
  * `Linking.handle`, `Linking.constant` and `Linking.bootstrapMethod` are the
    index of a value, which is added with all that it refers to if it is not
    there yet;
  * `Linking.count` is a number as the 16-bit word that precedes a list.
-/
import Std.Data.HashMap
import JvmClass.Linkage.Table
import JvmClass.Pool.Builder

namespace JvmClass

/-- A constant pool and a bootstrap method table under construction. -/
structure Linker where
  pool : Pool.Builder
  rows : Array BootstrapRow
  rowIndices : Std.HashMap BootstrapRow UInt16

/-- A step of writing that may add to a linker. -/
abbrev Linking := EStateM Invalid Linker

/-- The linker with nothing in it. -/
def Linker.empty : Linker := ⟨.empty, #[], ∅⟩

namespace Linking

/-- What `result` holds, without adding anything. -/
def ofExcept {α : Type} : Except Invalid α → Linking α
  | .ok a => pure a
  | .error cause => throw cause

instance : MonadLift (Except Invalid) Linking := ⟨ofExcept⟩

/-- A step that concerns the constant pool alone. -/
def ofInterning {α : Type} (step : Pool.Interning α) : Linking α
  | ⟨pool, rows, rowIndices⟩ =>
    match step pool with
    | .ok a pool => .ok a ⟨pool, rows, rowIndices⟩
    | .error cause pool => .error cause ⟨pool, rows, rowIndices⟩

instance : MonadLift Pool.Interning Linking := ⟨ofInterning⟩

/-- A number of things as a 16-bit word. -/
def count (n : Nat) (what : String) : Except Invalid UInt16 :=
  if n ≤ 0xFFFF then return UInt16.ofNat n else throw (.tooMany n what)

/-- Run `step` on each item, after the results `done` in reverse. -/
def eachRev {α β : Type} (step : α → Linking β) (done : List β) : List α → Linking (List β)
  | [] => return done.reverse
  | a :: rest => do
    let b ← step a
    eachRev step (b :: done) rest

/-- Run `step` on each item. -/
def each {α β : Type} (step : α → Linking β) (items : List α) : Linking (List β) :=
  eachRev step [] items

/-- The index of a method handle. -/
def handle (handle : Handle) : Linking Pool.Index := do
  unless Handle.isKind handle.kind do throw (.handleKind handle.kind)
  let member ←
    if handle.isField then Pool.Intern.fieldRef handle.member
    else Pool.Intern.methodRef handle.member handle.interface
  Pool.add (.methodHandle handle.kind member)

/-- The index of a row of the bootstrap method table. -/
def row (row : BootstrapRow) : Linking UInt16 := do
  let linker ← get
  match linker.rowIndices[row]? with
  | some index => return index
  | none =>
    let index ← count linker.rows.size "bootstrap methods"
    modify fun ⟨pool, rows, rowIndices⟩ => ⟨pool, rows.push row, rowIndices.insert row index⟩
    return index

mutual

/-- The index of a constant. -/
def constant : Constant → Linking Pool.Index
  | .integer value => Pool.add (.integer value)
  | .float bits => Pool.add (.float bits)
  | .long value => Pool.add (.long value)
  | .double bits => Pool.add (.double bits)
  | .string text => Pool.Intern.string text
  | .classRef name => Pool.Intern.classRef name
  | .methodType descriptor => Pool.Intern.methodType descriptor
  | .handle handle => Linking.handle handle
  | .dynamic name descriptor handle arguments => do
    let handle ← Linking.handle handle
    let arguments ← constantsRev [] arguments
    let bootstrap ← row ⟨handle, arguments⟩
    Pool.Intern.dynamic bootstrap name descriptor

/-- The indices of constants, after the indices `done` in reverse. -/
def constantsRev (done : List Pool.Index) : List Constant → Linking (List Pool.Index)
  | [] => return done.reverse
  | c :: rest => do
    let index ← constant c
    constantsRev (index :: done) rest

end

/-- The row of a bootstrap method. -/
def bootstrapMethod (method : BootstrapMethod) : Linking UInt16 := do
  let handle ← Linking.handle method.handle
  let arguments ← constantsRev [] method.arguments
  row ⟨handle, arguments⟩

end Linking

end JvmClass
