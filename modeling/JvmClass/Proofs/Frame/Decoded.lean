/-
  What is known of stack map tables that were read.

  * `DeltaFrame.Within`: the instructions that a frame refers to lie in a
    method body, and its parts can be written;
  * `produces_read`: this is known of all frames of a table, and their
    instructions ascend;
  * `Frames.Within`: the same of frames in either form, and `within_expand`:
    spelling frames out keeps it.
-/
import JvmClass.Frame.Binary
import JvmClass.Frame.Delta
import JvmClass.Proofs.Bytecode.Labels
import JvmClass.Proofs.Bytes.Produces
import JvmClass.Proofs.Result
import Mathlib.Data.FinEnum
import Mathlib.Data.Fintype.Basic

namespace JvmClass

/-- The instruction that a type refers to lies in a method body of `count`
    instructions. -/
def VerificationType.Within (count : Nat) : VerificationType → Prop
  | uninitialized label => label < count
  | _ => True

/-- The locals and the operands of a frame refer to instructions of a method
    body, and have numbers that can be written. -/
def DeltaFrame.PartsWithin (count : Nat) : DeltaFrame → Prop
  | same _ => True
  | sameOne _ operand => operand.Within count
  | chop _ n => 1 ≤ n ∧ n ≤ 3
  | append _ locals =>
    (1 ≤ locals.length ∧ locals.length ≤ 3) ∧ ∀ type ∈ locals, type.Within count
  | full _ locals stack =>
    (locals.length ≤ 0xFFFF ∧ ∀ type ∈ locals, type.Within count) ∧
      stack.length ≤ 0xFFFF ∧ ∀ type ∈ stack, type.Within count

/-- The instructions that a frame refers to lie in a method body of `count`
    instructions, and its parts can be written. -/
structure DeltaFrame.Within (count : Nat) (frame : DeltaFrame) : Prop where
  target : frame.target < count
  parts : frame.PartsWithin count

/-- The instructions that a spelled out frame refers to lie in a method body of
    `count` instructions. -/
structure Frame.Within (count : Nat) (frame : Frame) : Prop where
  target : frame.target < count
  locals : ∀ type ∈ frame.locals, type.Within count
  stack : ∀ type ∈ frame.stack, type.Within count

/-- Frames refer to instructions of a method body of `count` instructions, one
    behind the other, and differences can be written. -/
def Frames.Within (count : Nat) : Frames → Prop
  | compressed deltas => deltas.length ≤ 0xFFFF ∧ (∀ frame ∈ deltas, frame.Within count) ∧
      (deltas.map DeltaFrame.target).Pairwise (· < ·)
  | expanded frames => (∀ frame ∈ frames, frame.Within count) ∧
      (frames.map Frame.target).Pairwise (· < ·)

namespace StackMap

open Reader

variable {pool : Pool} {labels : LabelMap} {count : Nat}

theorem produces_readType (hlabels : labels.Ascends count) :
    Produces (readType pool labels) fun type => type.Within count := by
  refine .after fun tag => ?_
  split
  case h_8 => exact .after fun _ => .after fun _ => .pure trivial
  case h_9 => exact .after fun _ => .lift fun label h => .pure (hlabels.instruction_lt h)
  case h_10 => exact .throw
  all_goals exact .pure trivial

theorem chop_tags : ∀ tag : UInt8, ¬ (tag < 64 ∨ tag = 251) → ¬ (tag < 128 ∨ tag = 247) →
    ¬ (128 ≤ tag ∧ tag < 247) → tag < 251 → 1 ≤ 251 - tag ∧ 251 - tag ≤ 3 := by
  decide +kernel

theorem append_tags : ∀ tag : UInt8, ¬ (tag < 64 ∨ tag = 251) → ¬ tag < 251 → tag < 255 →
    1 ≤ tag.toNat - 251 ∧ tag.toNat - 251 ≤ 3 := by
  decide +kernel

theorem produces_readRest (hlabels : labels.Ascends count) {tag : UInt8}
    (htag : ¬ (128 ≤ tag ∧ tag < 247)) {target : Label} (htarget : target < count) :
    Produces (readRest pool labels tag target) fun frame =>
      frame.target = target ∧ frame.Within count := by
  refine .ite (fun _ => .pure ⟨rfl, htarget, trivial⟩) fun h₁ => ?_
  refine .ite (fun _ => ?_) fun h₂ => .ite (fun h₃ => ?_) fun h₃ => .ite (fun h₄ => ?_) fun _ => ?_
  · exact (produces_readType hlabels).bind fun _ h => .pure ⟨rfl, htarget, h⟩
  · exact .pure ⟨rfl, htarget, chop_tags tag h₁ h₂ htag h₃⟩
  · refine ((produces_readType hlabels).times _).bind fun locals h => .pure ⟨rfl, htarget, ?_⟩
    exact ⟨h.1 ▸ append_tags tag h₁ h₃ h₄, h.2⟩
  · refine (produces_readType hlabels).counted.bind fun locals hlocals => ?_
    exact (produces_readType hlabels).counted.bind fun stack hstack =>
      .pure ⟨rfl, htarget, hlocals, hstack⟩

theorem produces_readDelta (tag : UInt8) :
    Produces (readDelta tag) fun _ => ¬ (128 ≤ tag ∧ tag < 247) := by
  refine .ite (fun h => .pure fun hbad => ?_) fun _ => .ite (fun _ => .throw) fun h => ?_
  · exact absurd h (UInt8.not_lt.mpr hbad.1)
  · exact .after fun _ => .pure fun hbad => h hbad.2

theorem produces_readFrame (hlabels : labels.Ascends count) (previous : Option Nat) :
    Produces (readFrame pool labels previous) fun (offset, frame) =>
      (∀ before ∈ previous, before < offset) ∧ labels.label? offset = some frame.target ∧
        frame.Within count := by
  refine .after fun tag => (produces_readDelta tag).bind fun delta htag => ?_
  refine .lift fun target htarget => ?_
  refine (produces_readRest hlabels htag (hlabels.instruction_lt htarget)).bind fun frame h => ?_
  refine .pure ⟨?_, ?_, h.2⟩
  · rintro before ⟨⟩
    dsimp only
    omega
  · rw [h.1]
    exact LabelMap.label?_of_instruction htarget

/-- The frames read so far, last first: they ascend up to the offset
    `previous`. -/
structure ReadSoFar (labels : LabelMap) (count : Nat) (previous : Option Nat)
    (done : List DeltaFrame) : Prop where
  within : ∀ frame ∈ done, frame.Within count
  descend : (done.map DeltaFrame.target).Pairwise (· > ·)
  below : ∀ frame ∈ done, ∃ offset ∈ previous, ∃ before ≤ offset,
    labels.label? before = some frame.target

theorem ReadSoFar.cons (hlabels : labels.Ascends count) {previous : Option Nat} {offset : Nat}
    {frame : DeltaFrame} {done : List DeltaFrame} (hdone : ReadSoFar labels count previous done)
    (hbehind : ∀ before ∈ previous, before < offset)
    (hlabel : labels.label? offset = some frame.target) (hframe : frame.Within count) :
    ReadSoFar labels count (some offset) (frame :: done) where
  within := List.forall_mem_cons.mpr ⟨hframe, hdone.within⟩
  descend := by
    refine List.pairwise_cons.mpr ⟨List.forall_mem_map.mpr fun earlier hearlier => ?_,
      hdone.descend⟩
    obtain ⟨last, hlast, before, hle, hbefore⟩ := hdone.below earlier hearlier
    exact (hlabels.lt_iff hbefore hlabel).mp (Nat.lt_of_le_of_lt hle (hbehind last hlast))
  below := by
    refine List.forall_mem_cons.mpr ⟨⟨offset, rfl, offset, Nat.le_refl _, hlabel⟩, ?_⟩
    intro earlier hearlier
    obtain ⟨last, hlast, before, hle, hbefore⟩ := hdone.below earlier hearlier
    exact ⟨offset, rfl, before, Nat.le_trans hle (Nat.le_of_lt (hbehind last hlast)), hbefore⟩

/-- **What is known of a stack map table that was read.** -/
theorem produces_read (hlabels : labels.Ascends count) :
    Produces (read pool labels) fun frames =>
      frames.length ≤ 0xFFFF ∧ (∀ frame ∈ frames, frame.Within count) ∧
        (frames.map DeltaFrame.target).Pairwise (· < ·) := by
  refine .after fun number => ?_
  have hstep : ∀ n (state : Option Nat × List DeltaFrame),
      state.2.length = n ∧ ReadSoFar labels count state.1 state.2 →
      Produces (do
        let (offset, frame) ← readFrame pool labels state.1
        return (some offset, frame :: state.2)) fun state =>
          state.2.length = n + 1 ∧ ReadSoFar labels count state.1 state.2 := by
    rintro n ⟨previous, done⟩ ⟨hlength, hdone⟩
    refine (produces_readFrame hlabels previous).bind ?_
    rintro ⟨offset, frame⟩ ⟨hbehind, hlabel, hframe⟩
    exact .pure ⟨by rw [List.length_cons, hlength], hdone.cons hlabels hbehind hlabel hframe⟩
  have hstart : ([] : List DeltaFrame).length = 0 ∧ ReadSoFar labels count none [] :=
    ⟨rfl, nofun, .nil, nofun⟩
  refine (Produces.fold hstep number.toNat (s := (none, [])) hstart).bind ?_
  rintro ⟨previous, done⟩ ⟨hlength, hdone⟩
  refine .pure ⟨?_, fun frame hframe => hdone.within frame (List.mem_reverse.mp hframe), ?_⟩
  · rw [List.length_reverse, hlength, Nat.zero_add]
    exact word_le number
  · rw [List.map_reverse, List.pairwise_reverse]
    exact hdone.descend

end StackMap

/-! ## Frames that are spelled out -/

variable {count : Nat}

theorem within_verificationType (type : FieldType) : type.verificationType.Within count := by
  cases type with
  | base base => cases base <;> trivial
  | object | array => trivial

theorem within_initialLocals {owner name descriptor : String} {access : Access}
    {locals : List VerificationType} (h : initialLocals owner access name descriptor = .ok locals) :
    ∀ type ∈ locals, type.Within count := by
  obtain ⟨type, -, h⟩ := Result.bind_eq_ok.mp h
  have hparameters : ∀ t ∈ type.parameters.map FieldType.verificationType, t.Within count :=
    List.forall_mem_map.mpr fun t _ => within_verificationType t
  split at h
  · cases h
    exact hparameters
  split at h
  all_goals
    cases h
    exact List.forall_mem_cons.mpr ⟨trivial, hparameters⟩

/-- A difference makes a frame for its own instruction, of types that are in
    it or in the locals before. -/
theorem DeltaFrame.within_apply {delta : DeltaFrame} {locals : List VerificationType}
    {frame : Frame} (hdelta : delta.Within count) (hlocals : ∀ type ∈ locals, type.Within count)
    (h : delta.apply locals = .ok frame) : frame.target = delta.target ∧ frame.Within count := by
  have ⟨htarget, hparts⟩ := hdelta
  cases delta with
  | same target =>
    cases h
    exact ⟨rfl, htarget, hlocals, nofun⟩
  | sameOne target operand =>
    cases h
    exact ⟨rfl, htarget, hlocals, List.forall_mem_singleton.mpr hparts⟩
  | chop target n =>
    rw [DeltaFrame.apply] at h
    split at h
    · exact nomatch h
    · cases h
      exact ⟨rfl, htarget, fun type htype => hlocals type (List.mem_of_mem_take htype), nofun⟩
  | append target added =>
    cases h
    exact ⟨rfl, htarget, List.forall_mem_append.mpr ⟨hlocals, hparts.2⟩, nofun⟩
  | full target locals stack =>
    cases h
    exact ⟨rfl, htarget, hparts.1.2, hparts.2.2⟩

theorem within_expandRev {deltas : List DeltaFrame} {done frames : List Frame}
    {locals : List VerificationType} (hdeltas : ∀ delta ∈ deltas, delta.Within count)
    (hdone : ∀ frame ∈ done, frame.Within count) (hlocals : ∀ type ∈ locals, type.Within count)
    (h : expandRev done locals deltas = .ok frames) :
    (∀ frame ∈ frames, frame.Within count) ∧
      frames.map Frame.target = done.reverse.map Frame.target ++ deltas.map DeltaFrame.target := by
  induction deltas generalizing done locals with
  | nil =>
    cases h
    exact ⟨fun frame hframe => hdone frame (List.mem_reverse.mp hframe), by simp⟩
  | cons delta deltas ih =>
    obtain ⟨frame, hframe, h⟩ := Result.bind_eq_ok.mp h
    rw [List.forall_mem_cons] at hdeltas
    obtain ⟨htarget, hwithin⟩ := delta.within_apply hdeltas.1 hlocals hframe
    have hnext := ih hdeltas.2 (List.forall_mem_cons.mpr ⟨hwithin, hdone⟩) hwithin.locals h
    refine ⟨hnext.1, hnext.2.trans ?_⟩
    simp [htarget]

/-- **Spelling frames out** keeps the instructions they refer to in the
    body. -/
theorem within_expand {deltas : List DeltaFrame} {frames : List Frame}
    {initial : List VerificationType} (hinitial : ∀ type ∈ initial, type.Within count)
    (hdeltas : (Frames.compressed deltas).Within count) (h : expand initial deltas = .ok frames) :
    (Frames.expanded frames).Within count := by
  obtain ⟨hwithin, htargets⟩ := within_expandRev hdeltas.2.1 (List.forall_mem_nil _) hinitial h
  exact ⟨hwithin, htargets ▸ hdeltas.2.2⟩

end JvmClass
