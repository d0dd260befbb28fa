/-
  Access flags.

  * `Access` is a word of flags; what a bit means depends on the place where
    the word stands (`Access.Place`): bit `0x0020` is `super` on a class and
    `synchronized` on a method;
  * `Access.names` lists the set flags that have a name at a place, in the
    order of the bits.
-/
import JvmClass.Text.Hex

namespace JvmClass

/-- The access flags of a class, a member, an inner class or a parameter. -/
structure Access where
  bits : UInt16
  deriving DecidableEq, Repr, Inhabited

namespace Access

/-- Where a word of access flags stands. -/
inductive Place where
  | onClass | onField | onMethod | onParameter
  deriving DecidableEq, Repr

/-- The flags that have a name at a place, by ascending bit. -/
def Place.flags : Place → List (UInt16 × String)
  | onClass =>
    [(0x0001, "public"), (0x0010, "final"), (0x0020, "super"), (0x0200, "interface"),
      (0x0400, "abstract"), (0x1000, "synthetic"), (0x2000, "annotation"), (0x4000, "enum"),
      (0x8000, "module")]
  | onField =>
    [(0x0001, "public"), (0x0002, "private"), (0x0004, "protected"), (0x0008, "static"),
      (0x0010, "final"), (0x0040, "volatile"), (0x0080, "transient"), (0x1000, "synthetic"),
      (0x4000, "enum")]
  | onMethod =>
    [(0x0001, "public"), (0x0002, "private"), (0x0004, "protected"), (0x0008, "static"),
      (0x0010, "final"), (0x0020, "synchronized"), (0x0040, "bridge"), (0x0080, "varargs"),
      (0x0100, "native"), (0x0400, "abstract"), (0x0800, "strict"), (0x1000, "synthetic")]
  | onParameter => [(0x0010, "final"), (0x1000, "synthetic"), (0x8000, "mandated")]

def static : Access := ⟨0x0008⟩
def interface : Access := ⟨0x0200⟩

/-- Whether every flag of `other` is set. -/
def contains (access other : Access) : Bool := access.bits &&& other.bits == other.bits

/-- The flags set in either. -/
def union (access other : Access) : Access := ⟨access.bits ||| other.bits⟩

def isStatic (access : Access) : Bool := access.contains static

def isInterface (access : Access) : Bool := access.contains interface

/-- The names of the set flags, by ascending bit. -/
def names (access : Access) (place : Place) : List String :=
  (place.flags.filter fun (bit, _) => access.bits &&& bit != 0).map (·.2)

/-- The flags as a text: `AccessFlags(0x0021)`. -/
def describe (access : Access) : String :=
  "AccessFlags(0x" ++ Text.hexPadded 4 access.bits.toNat ++ ")"

end Access

end JvmClass
