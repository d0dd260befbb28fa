/-
  What the indices in a class file stand for.

  * a `Linkage` is a constant pool with the rows of the bootstrap method
    table, which dynamic constants and call sites refer to;
  * `Linkage.handle`, `Linkage.constant` and `Linkage.bootstrapMethod` resolve
    an index completely.  Bootstrap methods may take dynamic constants, which
    have bootstrap methods themselves: they nest at most `maxDepth` deep.
-/
import JvmClass.Pool.Table

namespace JvmClass

/-- A row of the bootstrap method table. -/
structure BootstrapRow where
  handle : Pool.Index
  arguments : List Pool.Index
  deriving DecidableEq, Hashable, Repr

/-- A constant pool and a bootstrap method table. -/
structure Linkage where
  pool : Pool
  bootstraps : Array BootstrapRow

namespace Linkage

/-- How deep dynamic constants may nest in the arguments of bootstrap
    methods. -/
def maxDepth : Nat := 32

variable (linkage : Linkage)

/-- The method handle at `index`. -/
def handle (index : Pool.Index) : Except Malformed Handle := do
  match ← linkage.pool.get index with
  | .methodHandle kind ref =>
    unless Handle.isKind kind do throw (.handleKind kind)
    let ref ← linkage.pool.member ref
    return ⟨kind, ref.member, ref.interface⟩
  | _ => throw (.notMethodHandle index)

/-- The constant at `index`, where `bootstrapMethod` resolves rows of the
    bootstrap method table. -/
def constantWith (bootstrapMethod : UInt16 → Except Malformed BootstrapMethod)
    (index : Pool.Index) : Except Malformed Constant := do
  match ← linkage.pool.get index with
  | .integer value => return .integer value
  | .float bits => return .float bits
  | .long value => return .long value
  | .double bits => return .double bits
  | .string text => return .string (← linkage.pool.utf8 text)
  | .classRef name => return .classRef (← linkage.pool.utf8 name)
  | .methodType descriptor => return .methodType (← linkage.pool.utf8 descriptor)
  | .methodHandle _ _ => return .handle (← linkage.handle index)
  | .dynamic bootstrap nameAndType =>
    let (name, descriptor) ← linkage.pool.nameAndType nameAndType
    let method ← bootstrapMethod bootstrap
    return .dynamic name descriptor method.handle method.arguments
  | entry => throw (.notLoadable index entry.kind)

/-- The bootstrap method in row `index`, with dynamic constants in its
    arguments nested less than `depth` deep. -/
def bootstrapWithin : (depth : Nat) → (index : UInt16) → Except Malformed BootstrapMethod
  | 0, _ => throw (.bootstrapDepth maxDepth)
  | depth + 1, index =>
    match linkage.bootstraps[index.toNat]? with
    | none => throw (.bootstrapIndex index)
    | some row => do
      let arguments ← row.arguments.mapM (linkage.constantWith (bootstrapWithin depth))
      return ⟨← linkage.handle row.handle, arguments⟩

/-- The bootstrap method in row `index`. -/
def bootstrapMethod (index : UInt16) : Except Malformed BootstrapMethod :=
  linkage.bootstrapWithin (maxDepth + 1) index

/-- The constant at `index`. -/
def constant (index : Pool.Index) : Except Malformed Constant :=
  linkage.constantWith linkage.bootstrapMethod index

end Linkage

end JvmClass
