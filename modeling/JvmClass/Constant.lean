/-
  Loadable constants with every reference into the constant pool resolved.

  * `Member` names a field or a method of a class, `Handle` a way to use one;
  * `Constant` is what `ldc` loads, a static field starts with, or a bootstrap
    method takes as an argument; a dynamic constant holds the bootstrap method
    that computes it;
  * `BootstrapMethod` is a handle with its constant arguments.
-/
import JvmClass.Malformed

namespace JvmClass

/-- A field or a method: the class it belongs to, its name and its
    descriptor. -/
structure Member where
  owner : String
  name : String
  descriptor : String
  deriving DecidableEq, Repr

/-- A method handle: its kind, the member it stands for, and whether that
    member is referred to as one of an interface. -/
structure Handle where
  kind : UInt8
  member : Member
  interface : Bool
  deriving DecidableEq, Repr

/-- Whether the handle reads or writes a field. -/
def Handle.isField (handle : Handle) : Bool := 1 ≤ handle.kind && handle.kind ≤ 4

/-- Whether `kind` is a kind of method handle. -/
def Handle.isKind (kind : UInt8) : Bool := 1 ≤ kind && kind ≤ 9

/-- A loadable constant.  Floating-point numbers are kept as their bits. -/
inductive Constant where
  | integer (value : Int32)
  | float (bits : UInt32)
  | long (value : Int64)
  | double (bits : UInt64)
  | string (value : String)
  /-- An internal name, or the descriptor of an array class. -/
  | classRef (name : String)
  | methodType (descriptor : String)
  | handle (handle : Handle)
  /-- A constant computed by the bootstrap method `handle` with `arguments`. -/
  | dynamic (name descriptor : String) (handle : Handle) (arguments : List Constant)

/-- Whether the value takes two slots. -/
def Constant.isWide : Constant → Bool
  | long _ | double _ => true
  | dynamic _ descriptor _ _ => descriptor == "J" || descriptor == "D"
  | _ => false

/-- A method that computes a dynamic constant or links a call site. -/
structure BootstrapMethod where
  handle : Handle
  arguments : List Constant

end JvmClass
