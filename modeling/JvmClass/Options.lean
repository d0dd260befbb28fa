/-
  Choices for reading and writing class files.

  * `DecodeOptions` say what to leave out of a record, or to put differently;
  * `EncodeOptions` say what to compute instead of taking it from a record.
-/

namespace JvmClass

/-- What to leave out, or to put differently, when a class file is read. -/
structure DecodeOptions where
  /-- Leave out the source file, the debug extension, line numbers, local
      variables and the names of parameters. -/
  skipDebug : Bool := false
  /-- Leave out stack map frames. -/
  skipFrames : Bool := false
  /-- Spell out stack map frames. -/
  expandFrames : Bool := false
  deriving DecidableEq, Repr

/-- What to compute when a record is written. -/
structure EncodeOptions where
  /-- Compute stack map frames, and the sizes with them. -/
  computeFrames : Bool := false
  /-- Compute the sizes of the stack and the locals. -/
  computeMaxs : Bool := false
  deriving DecidableEq, Repr

end JvmClass
