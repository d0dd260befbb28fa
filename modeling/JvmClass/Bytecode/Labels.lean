/-
  Labels and offsets.

  * a `Layout` gives the offset of every label, that of the end of the code
    last;
  * a `LabelMap` gives back the label at an offset, if an instruction starts
    there or the code ends there;
  * `Layout.labelMap` is the map of the offsets of a layout.
-/
import JvmClass.Instruction.Basic
import JvmClass.Invalid

namespace JvmClass

/-- The offset of every label of a method body, the end of the code
    included. -/
structure Layout where
  offsets : Array Nat

/-- The label at every offset of a method body where an instruction starts or
    the code ends. -/
structure LabelMap where
  labels : Array (Option Label)

namespace Layout

/-- The number of instructions. -/
def count (layout : Layout) : Nat := layout.offsets.size - 1

/-- The offset of a label. -/
def offset (layout : Layout) (label : Label) : Except Invalid UInt16 :=
  match layout.offsets[label]? with
  | some offset => return UInt16.ofNat offset
  | none => throw (.labelPastEnd label)

end Layout

namespace LabelMap

/-- The labels of instructions that start at `offsets`, in code of `length`
    bytes. -/
def ofOffsets (offsets : List Nat) (length : Nat) : LabelMap :=
  let starts := offsets.zipIdx.foldl
    (fun labels (offset, label) => labels.setIfInBounds offset (some label))
    (Array.replicate (length + 1) none)
  ⟨starts.setIfInBounds length (some offsets.length)⟩

variable (labels : LabelMap)

/-- The label at `offset`, if there is one. -/
def label? (offset : Nat) : Option Label := labels.labels[offset]?.join

/-- The label at `offset`. -/
def label (offset : Nat) : Except Malformed Label :=
  match labels.label? offset with
  | some label => return label
  | none => throw (.notBoundary offset)

/-- The label of the instruction at `offset`, where the code must not end. -/
def instruction (offset : Nat) : Except Malformed Label :=
  if offset + 1 ≥ labels.labels.size then throw (.pastLastInstruction offset)
  else labels.label offset

end LabelMap

end JvmClass
