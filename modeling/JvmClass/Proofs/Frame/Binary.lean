/-
  Stack map tables survive writing.

  * `yields_writeType`: a verification type is read as what was written;
  * `Follows`: the distance of a frame from the one before, as it is written;
  * `yields_writeDelta` and `yields_write` are a frame and a whole table.
-/
import JvmClass.Frame.Binary
import JvmClass.Proofs.Bytecode.Layout
import Mathlib.Data.FinEnum
import Mathlib.Data.Fintype.Basic

namespace JvmClass.StackMap

open Reader Linking

section
variable {layout : Layout} {starts : List Nat} {length : Nat}

theorem yields_writeType (hlayout : layout.Ascends starts length) (type : VerificationType) :
    Yields (writeType layout type) fun linker w =>
      Reads (readType linker.toLinkage.pool (.ofOffsets starts length)) w type := by
  cases type with
  | object name =>
    refine (Pool.yields_classRef name).lift.bind fun index => .pure fun linker _ h => ?_
    exact Reads.consU1 ((reads_u2 index).thenMap h)
  | uninitialized label =>
    refine Yields.guard fun hlabel => (Yields.ofExcept _).bind fun offset => .pure ?_
    intro linker _ hoffset
    rw [hlayout.count_eq] at hlabel
    exact Reads.consU1 ((reads_u2 offset).thenMap
      (hlayout.instruction_of_offset (Nat.not_le.mp hlabel) hoffset))
  | _ => exact .pure fun _ _ => Reads.consU1 Reads.pure

theorem yields_writeTypes (hlayout : layout.Ascends starts length)
    (types : List VerificationType) :
    Yields (writeTypes layout types) fun linker w =>
      ∀ n, n = types.length →
        Reads (times n (readType linker.toLinkage.pool (.ofOffsets starts length))) w types := by
  refine (Yields.each fun type _ => yields_writeType hlayout type).bind fun ws => ?_
  exact .pure fun linker _ h n hn => reads_times h hn

/-! ## Distances -/

/-- The frame at the offset `offset` is at the distance `delta` from the one
    before. -/
def Follows (previous : Option Nat) (delta offset : Nat) : Prop :=
  (match previous with
    | none => delta
    | some previous => previous + delta + 1) = offset

theorem follows_of_delta {previous : Option Nat} {offset : Nat} {word : UInt16}
    (hoffset : offset ≤ 0xFFFF) (h : delta previous offset = .ok word) :
    Follows previous word.toNat offset := by
  unfold delta at h
  split at h
  next =>
    cases h
    simp only [Follows, UInt16.toNat_ofNat']
    omega
  next previous =>
    split at h
    next hlt =>
      cases h
      simp only [Follows, UInt16.toNat_ofNat']
      omega
    next => cases h

theorem small_tag : ∀ d : UInt8, d < 64 → d < 128 ∧ d.toNat % 64 = d.toNat := by
  decide +kernel

theorem small_operandTag : ∀ d : UInt8, d < 64 →
    64 + d < 128 ∧ (64 + d).toNat % 64 = d.toNat ∧ ¬ (64 + d < 64 ∨ 64 + d = 251) := by
  decide +kernel

theorem toUInt8_lt {word : UInt16} (h : word < 64) :
    word.toUInt8 < 64 ∧ word.toUInt8.toNat = word.toNat := by
  have hlt : word.toNat < 64 := UInt16.lt_iff_toNat_lt.mp h
  have heq : word.toUInt8.toNat = word.toNat := by rw [UInt16.toNat_toUInt8]; omega
  exact ⟨UInt8.lt_iff_toNat_lt.mpr (by rw [heq]; exact hlt), heq⟩

section
variable {pool : Pool} {labels : LabelMap}

theorem readDelta_small {tag : UInt8} (h : tag < 128) :
    Reads (readDelta tag) [] (tag.toNat % 64) := by
  unfold readDelta
  rw [if_pos h]
  exact Reads.pure

theorem readDelta_word (tag : UInt8) (h : 247 ≤ tag) (word : UInt16) :
    Reads (readDelta tag) (Bytes.u2 word) word.toNat := by
  have hle : 247 ≤ tag.toNat := UInt8.le_iff_toNat_le.mp h
  unfold readDelta
  rw [if_neg (by rw [UInt8.lt_iff_toNat_lt]; simp; omega),
    if_neg (by rw [UInt8.lt_iff_toNat_lt]; simp; omega)]
  exact (reads_u2 word).map

theorem reads_frame {tag : UInt8} {previous : Option Nat} {delta offset : Nat} {target : Label}
    {frame : DeltaFrame} {v w : Bytes} (hdelta : Reads (readDelta tag) v delta)
    (hfollows : Follows previous delta offset) (htarget : labels.instruction offset = .ok target)
    (hrest : Reads (readRest pool labels tag target) w frame) :
    Reads (readFrame pool labels previous) (tag :: (v ++ w)) (offset, frame) := by
  refine Reads.consU1 (hdelta.bind ?_)
  refine Reads.lift (a := target) ?_ ?_
  · exact (congrArg labels.instruction hfollows).trans htarget
  · rw [← hfollows]; exact hrest.map

end

/-! ## Frames -/

theorem chop_tag : ∀ count : UInt8, ¬ (count < 1 ∨ count > 3) →
    247 ≤ 251 - count ∧ ¬ (251 - count < 64 ∨ 251 - count = 251) ∧
      ¬ (251 - count < 128 ∨ 251 - count = 247) ∧ 251 - count < 251 ∧
        251 - (251 - count) = count := by
  decide +kernel

theorem append_tag : ∀ count : Fin 4, 1 ≤ count.val →
    247 ≤ 251 + UInt8.ofNat count ∧
      ¬ (251 + UInt8.ofNat count < 64 ∨ 251 + UInt8.ofNat count = 251) ∧
      ¬ (251 + UInt8.ofNat count < 128 ∨ 251 + UInt8.ofNat count = 247) ∧
      ¬ 251 + UInt8.ofNat count < 251 ∧ 251 + UInt8.ofNat count < 255 ∧
      (251 + UInt8.ofNat count).toNat - 251 = count := by
  decide +kernel

/-- A frame that was written at its distance is read with its offset. -/
theorem yields_writeDelta (hlayout : layout.Ascends starts length) {previous : Option Nat}
    {word : UInt16} {offset : Nat} {frame : DeltaFrame}
    (hfollows : Follows previous word.toNat offset)
    (htarget : (LabelMap.ofOffsets starts length).instruction offset = .ok frame.target) :
    Yields (writeDelta layout word frame) fun linker w =>
      Reads (readFrame linker.toLinkage.pool (.ofOffsets starts length) previous) w
        (offset, frame) := by
  cases frame with
  | same target =>
    refine .pure fun linker _ => ?_
    split
    next hsmall =>
      obtain ⟨hlt, hword⟩ := toUInt8_lt hsmall
      obtain ⟨htag, hmod⟩ := small_tag _ hlt
      rw [← hword, ← hmod] at hfollows
      refine reads_frame (w := []) (readDelta_small htag) hfollows htarget ?_
      rw [readRest, if_pos (.inl hlt)]
      exact Reads.pure
    next =>
      rw [← List.append_nil (Bytes.u2 word)]
      exact reads_frame (readDelta_word 251 (by decide) word) hfollows htarget
        Reads.pure
  | sameOne target operand =>
    refine (yields_writeType hlayout operand).bind fun bytes => .pure fun linker _ hoperand => ?_
    split
    next hsmall =>
      obtain ⟨hlt, hword⟩ := toUInt8_lt hsmall
      obtain ⟨htag, hmod, hother⟩ := small_operandTag _ hlt
      rw [← hword, ← hmod] at hfollows
      refine reads_frame (readDelta_small htag) hfollows htarget ?_
      rw [readRest, if_neg hother, if_pos (.inl htag)]
      exact hoperand.map
    next =>
      exact reads_frame (readDelta_word 247 (by decide) word) hfollows htarget
        hoperand.map
  | chop target count =>
    refine Yields.guard fun hcount => .pure fun linker _ => ?_
    obtain ⟨htag, hsame, hone, hchop, hback⟩ := chop_tag count hcount
    rw [← List.append_nil (Bytes.u2 word)]
    refine reads_frame (readDelta_word _ htag word) hfollows htarget ?_
    rw [readRest, if_neg hsame, if_neg hone, if_pos hchop, hback]
    exact Reads.pure
  | append target locals =>
    refine Yields.guard fun hcount => ?_
    refine (yields_writeTypes hlayout locals).bind fun bytes => .pure fun linker _ hlocals => ?_
    obtain ⟨htag, hsame, hone, hchop, happend, hback⟩ :=
      append_tag ⟨locals.length, by omega⟩ (by simp only; omega)
    refine reads_frame (readDelta_word _ htag word) hfollows htarget ?_
    rw [readRest, if_neg hsame, if_neg hone, if_neg hchop, if_pos happend]
    exact (hlocals _ hback).map
  | full target locals stack =>
    refine (Yields.count _ _).bind fun localCount => ?_
    refine (yields_writeTypes hlayout locals).bind fun localBytes => ?_
    refine (Yields.count _ _).bind fun stackCount => ?_
    refine (yields_writeTypes hlayout stack).bind fun stackBytes => .pure ?_
    intro linker _ hstack hstackCount hlocals hlocalCount
    simp only [List.cons_append, List.append_assoc]
    refine reads_frame (readDelta_word 255 (by decide) word) hfollows htarget ?_
    rw [← List.append_assoc]
    refine Reads.bind ((reads_u2 _).bind (hlocals _ hlocalCount)) ?_
    exact Reads.map ((reads_u2 _).bind (hstack _ hstackCount))

/-- What a table threads through its frames: the offset of the frame before,
    and the frames read so far, last first. -/
abbrev readStep (pool : Pool) (labels : LabelMap) :
    Option Nat × List DeltaFrame → Reader (Option Nat × List DeltaFrame) :=
  fun (previous, done) => do
    let (offset, frame) ← readFrame pool labels previous
    return (some offset, frame :: done)

theorem yields_writeFrames (hlayout : layout.Ascends starts length) (frames : List DeltaFrame)
    (done : List Bytes) (previous : Option Nat) :
    Yields (writeFrames layout done previous frames) fun linker w =>
      ∃ ws, w = (done.reverse ++ ws).flatten ∧ ws.length = frames.length ∧
        ∀ read, ∃ last, Passes (readStep linker.toLinkage.pool (.ofOffsets starts length))
          (previous, read) ws (last, frames.reverse ++ read) := by
  induction frames generalizing done previous with
  | nil =>
    exact .pure fun linker _ => ⟨[], by simp, rfl, fun read => ⟨previous, .nil _⟩⟩
  | cons frame frames ih =>
    refine Yields.guard fun hlabel => ?_
    rw [hlayout.count_eq, ge_iff_le, Nat.not_le] at hlabel
    have htarget := hlayout.instruction_of_lt hlabel
    have hplace := hlayout.place_le frame.target
    have hle := hlayout.le
    simp only [Bytecode.maxLength] at hle
    refine Yields.bindOk fun word hword => ?_
    have hfollows := follows_of_delta (show layout.place frame.target ≤ 0xFFFF by omega) hword
    refine (yields_writeDelta hlayout hfollows htarget).bind fun bytes => ?_
    refine (ih (bytes :: done) (some (layout.place frame.target))).mono ?_
    rintro linker w - ⟨ws, rfl, hlength, hpasses⟩ hread
    refine ⟨bytes :: ws, by simp, by simp [hlength], fun read => ?_⟩
    obtain ⟨last, hrest⟩ := hpasses (frame :: read)
    refine ⟨last, .cons (hread.map (g := fun r => (some r.1, r.2 :: read))) ?_⟩
    simpa using hrest

/-- **A stack map table that was written is read as it was**, with the labels
    of the layout. -/
theorem yields_write (hlayout : layout.Ascends starts length) (frames : List DeltaFrame) :
    Yields (write layout frames) fun linker w =>
      Reads (read linker.toLinkage.pool (.ofOffsets starts length)) w frames := by
  refine (Yields.count _ _).bind fun count => ?_
  refine (yields_writeFrames hlayout frames [] none).bind fun bytes => .pure ?_
  rintro linker - ⟨ws, rfl, hlength, hpasses⟩ hcount
  obtain ⟨last, hpasses⟩ := hpasses []
  have hread := (reads_fold hpasses (hcount.trans hlength.symm)).map (g := fun s => s.2.reverse)
  simp only [List.append_nil, List.reverse_reverse, List.reverse_nil, List.nil_append] at hread ⊢
  exact (reads_u2 count).bind hread

end

end JvmClass.StackMap
