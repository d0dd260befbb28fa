/-
  Stack map tables that were read can be written.

  * the classes in a frame are its mentions;
  * `enters_writeDelta`: a frame within a method body can be written behind the
    one before, or a class cannot be added to the pool;
  * `enters_write`: so can a table of frames whose instructions ascend.
-/
import JvmClass.Proofs.Bytecode.Layout
import JvmClass.Proofs.Frame.Decoded
import JvmClass.Proofs.Linkage.Mentions

namespace JvmClass

/-- The class that a type names. -/
def VerificationType.mentions : VerificationType → List Mention
  | object name => [.type name]
  | _ => []

/-- The classes that a frame names. -/
def DeltaFrame.mentions : DeltaFrame → List Mention
  | same _ | chop _ _ => []
  | sameOne _ operand => operand.mentions
  | append _ locals => locals.flatMap VerificationType.mentions
  | full _ locals stack =>
    locals.flatMap VerificationType.mentions ++ stack.flatMap VerificationType.mentions

namespace StackMap

variable {I : Linker → Prop} {E : Invalid → Halt → Prop} {layout : Layout} {starts : List Nat}
  {length : Nat}

section
variable (hclass : ∀ name, Enters I (liftM (Pool.Intern.classRef name) : Linking Pool.Index)
  [.type name] (fun _ => True) E)
include hclass

theorem enters_writeType (hlayout : layout.Ascends starts length) {type : VerificationType}
    (h : type.Within starts.length) :
    Enters I (writeType layout type) type.mentions (fun _ => True) E := by
  cases type with
  | object name =>
    exact (hclass name).last fun _ _ => .pure trivial
  | uninitialized label =>
    have hlt : ¬ label ≥ layout.count := by
      rw [hlayout.count_eq]
      exact Nat.not_le.mpr h
    obtain ⟨offset, hoffset⟩ := hlayout.offset_of_le (Nat.le_of_lt h)
    refine .guard (fun hpast => absurd hpast hlt) fun _ => ?_
    exact .bindOk hoffset (.pure trivial)
  | _ => exact .pure trivial

theorem enters_writeTypes (hlayout : layout.Ascends starts length)
    {types : List VerificationType} (h : ∀ type ∈ types, type.Within starts.length) :
    Enters I (writeTypes layout types) (types.flatMap VerificationType.mentions) (fun _ => True) E := by
  rw [writeTypes]
  exact (Enters.each fun type htype => enters_writeType hclass hlayout (h type htype)).map
    fun _ _ => trivial

theorem enters_writeDelta (hlayout : layout.Ascends starts length) (delta : UInt16)
    {frame : DeltaFrame} (h : frame.PartsWithin starts.length) :
    Enters I (writeDelta layout delta frame) frame.mentions (fun _ => True) E := by
  cases frame with
  | same target => exact .pure trivial
  | sameOne target operand => exact (enters_writeType hclass hlayout h).last fun _ _ => .pure trivial
  | chop target count =>
    refine .guard (fun hbad => absurd h ?_) fun _ => .pure trivial
    rintro ⟨hone, hthree⟩
    rcases hbad with hbad | hbad
    · exact absurd hone (UInt8.not_le.mpr hbad)
    · exact absurd hthree (UInt8.not_le.mpr hbad)
  | append target locals =>
    obtain ⟨⟨hone, hthree⟩, hlocals⟩ := h
    refine .guard (fun hbad => by omega) fun _ => ?_
    exact (enters_writeTypes hclass hlayout hlocals).last fun _ _ => .pure trivial
  | full target locals stack =>
    obtain ⟨⟨hlocalCount, hlocals⟩, hstackCount, hstack⟩ := h
    refine (Enters.count hlocalCount _).silent fun _ _ => ?_
    refine (enters_writeTypes hclass hlayout hlocals).after fun _ => ?_
    refine (Enters.count hstackCount _).silent fun _ _ => ?_
    exact (enters_writeTypes hclass hlayout hstack).last fun _ _ => .pure trivial

/-- Frames within a method body whose instructions ascend, behind the one
    before. -/
theorem enters_writeFrames (hlayout : layout.Ascends starts length) {frames : List DeltaFrame}
    (hwithin : ∀ frame ∈ frames, frame.Within starts.length)
    (hascend : (frames.map DeltaFrame.target).Pairwise (· < ·)) (done : List Bytes)
    {previous : Option Nat}
    (hprevious : ∀ before ∈ previous, ∀ frame ∈ frames, before < layout.place frame.target) :
    Enters I (writeFrames layout done previous frames) (frames.flatMap DeltaFrame.mentions)
      (fun _ => True) E := by
  induction frames generalizing done previous with
  | nil => exact .pure trivial
  | cons frame frames ih =>
    rw [List.forall_mem_cons] at hwithin
    rw [List.map_cons, List.pairwise_cons, List.forall_mem_map] at hascend
    rw [List.flatMap_cons]
    have hlt : ¬ frame.target ≥ layout.count := by
      rw [hlayout.count_eq]
      exact Nat.not_le.mpr hwithin.1.target
    have hdelta : ∃ word, delta previous (layout.place frame.target) = .ok word := by
      cases previous with
      | none => exact ⟨_, rfl⟩
      | some before => exact ⟨_, if_pos (hprevious before rfl frame (.head _))⟩
    obtain ⟨word, hword⟩ := hdelta
    refine .guard (fun hpast => absurd hpast hlt) fun _ => ?_
    refine .bindOk hword ?_
    refine (enters_writeDelta hclass hlayout word hwithin.1.parts).after fun bytes => ?_
    refine ih hwithin.2 hascend.2 (bytes :: done) ?_
    rintro _ ⟨⟩ later hlater
    exact hlayout.place_lt (hascend.1 later hlater) (hwithin.2 later hlater).target

/-- **A table whose frames ascend within a method body** can be written, or a
    class cannot be added. -/
theorem enters_write (hlayout : layout.Ascends starts length) {frames : List DeltaFrame}
    (hcount : frames.length ≤ 0xFFFF) (hwithin : ∀ frame ∈ frames, frame.Within starts.length)
    (hascend : (frames.map DeltaFrame.target).Pairwise (· < ·)) :
    Enters I (write layout frames) (frames.flatMap DeltaFrame.mentions) (fun _ => True) E := by
  have hfirst : ∀ before ∈ (none : Option Nat), ∀ frame ∈ frames,
      before < layout.place frame.target := nofun
  refine (Enters.count hcount _).silent fun _ _ => ?_
  exact (enters_writeFrames hclass hlayout hwithin hascend [] hfirst).last fun _ _ =>
    .pure trivial

end

end StackMap

end JvmClass
