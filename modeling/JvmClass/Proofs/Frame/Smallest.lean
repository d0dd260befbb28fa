/-
  The smallest differences between frames.

  * `DeltaFrame.encodedLength` is the number of bytes that a frame takes at a
    distance from the frame before; `length_writeDelta` says so of what is
    written;
  * `DeltaFrame.HasTag`: there is a tag for the number of locals that a frame
    takes away or adds;
  * `encodedLength_delta_le`: of all differences with a tag that make a frame,
    `Frame.delta` takes the fewest bytes;
  * `compress_smallest`: so does every difference in `compress`, in its place,
    and nothing is lost.
-/
import JvmClass.Frame.Binary
import JvmClass.Proofs.Frame.Delta
import JvmClass.Proofs.Linkage.Growing

namespace JvmClass

/-! ## Lengths -/

namespace VerificationType

/-- The number of bytes of a verification type. -/
def encodedLength : VerificationType → Nat
  | object _ | uninitialized _ => 3
  | _ => 1

/-- The number of bytes of verification types, one after the other. -/
def encodedLengths : List VerificationType → Nat
  | [] => 0
  | type :: rest => type.encodedLength + encodedLengths rest

end VerificationType

open VerificationType

namespace DeltaFrame

/-- The number of bytes of a frame at the distance `distance` from the frame
    before. -/
def encodedLength (distance : UInt16) : DeltaFrame → Nat
  | same _ => if distance < 64 then 1 else 3
  | sameOne _ operand => (if distance < 64 then 1 else 3) + operand.encodedLength
  | chop .. => 3
  | append _ locals => 3 + encodedLengths locals
  | full _ locals stack => 7 + encodedLengths locals + encodedLengths stack

/-- There is a tag for the number of locals that a frame takes away or adds. -/
def HasTag : DeltaFrame → Prop
  | chop _ count => 1 ≤ count ∧ count ≤ 3
  | append _ locals => 1 ≤ locals.length ∧ locals.length ≤ 3
  | _ => True

end DeltaFrame

namespace StackMap

open Linking

variable {layout : Layout} {linker next : Linker} {w : Bytes}

theorem length_writeType {type : VerificationType}
    (h : writeType layout type linker = .ok w next) : w.length = type.encodedLength := by
  cases type with
  | object name =>
    obtain ⟨index, after, -, hpure⟩ := bind_eq_ok.mp h
    cases hpure
    simp [encodedLength, Bytes.u2]
  | uninitialized label =>
    simp only [writeType] at h
    split at h
    next => exact nomatch h
    next =>
      obtain ⟨offset, after, -, hpure⟩ := bind_eq_ok.mp h
      cases hpure
      simp [encodedLength, Bytes.u2]
  | _ => cases h; rfl

theorem length_writeTypes {types : List VerificationType}
    (h : writeTypes layout types linker = .ok w next) : w.length = encodedLengths types := by
  rw [writeTypes, map_eq_pure_bind] at h
  obtain ⟨ws, after, hws, hpure⟩ := bind_eq_ok.mp h
  cases hpure
  have hlengths : List.Forall₂ (fun type v => List.length v = encodedLength type) types ws :=
    forall₂_of_each hws fun type _ s v t hv => length_writeType hv
  clear h hws
  induction hlengths with
  | nil => rfl
  | cons hv _ ih =>
    rw [List.flatten_cons, List.length_append, hv, ih, encodedLengths]

/-- **A frame takes as many bytes as its length says.** -/
theorem length_writeDelta {distance : UInt16} {frame : DeltaFrame}
    (h : writeDelta layout distance frame linker = .ok w next) :
    w.length = frame.encodedLength distance := by
  cases frame with
  | same target =>
    cases h
    simp only [DeltaFrame.encodedLength]
    split <;> simp [Bytes.u2]
  | sameOne target operand =>
    obtain ⟨v, after, hv, hpure⟩ := bind_eq_ok.mp h
    cases hpure
    simp only [DeltaFrame.encodedLength, List.length_append, length_writeType hv]
    split <;> simp [Bytes.u2]
  | chop target count =>
    simp only [writeDelta] at h
    split at h
    next => cases h
    next => cases h; simp [DeltaFrame.encodedLength, Bytes.u2]
  | append target locals =>
    simp only [writeDelta] at h
    split at h
    next => cases h
    next =>
      obtain ⟨v, after, hv, hpure⟩ := bind_eq_ok.mp h
      cases hpure
      simp [DeltaFrame.encodedLength, Bytes.u2, length_writeTypes hv]
      omega
  | full target locals stack =>
    obtain ⟨localCount, s₁, -, h⟩ := bind_eq_ok.mp h
    obtain ⟨localBytes, s₂, hlocals, h⟩ := bind_eq_ok.mp h
    obtain ⟨stackCount, s₃, -, h⟩ := bind_eq_ok.mp h
    obtain ⟨stackBytes, s₄, hstack, hpure⟩ := bind_eq_ok.mp h
    cases hpure
    simp [DeltaFrame.encodedLength, Bytes.u2, length_writeTypes hlocals, length_writeTypes hstack]
    omega

end StackMap

/-! ## The smallest difference -/

theorem VerificationType.encodedLengths_append (first second : List VerificationType) :
    encodedLengths (first ++ second) = encodedLengths first + encodedLengths second := by
  induction first with
  | nil => rw [List.nil_append, encodedLengths, Nat.zero_add]
  | cons type first ih => rw [List.cons_append, encodedLengths, encodedLengths, ih, Nat.add_assoc]

theorem makes_of_apply {previous : List VerificationType} {delta : DeltaFrame} {frame : Frame}
    (htag : delta.HasTag) (h : delta.apply previous = .ok frame) : delta.Makes previous frame := by
  cases delta with
  | same target => cases h; exact .same target
  | sameOne target operand => cases h; exact .sameOne target operand
  | chop target count =>
    rw [DeltaFrame.apply] at h
    split at h
    next => cases h
    next hle =>
      cases h
      exact .chop target htag.1 htag.2 (Nat.not_lt.mp hle)
  | append target added => cases h; exact .append target htag.1 htag.2
  | full target locals stack => cases h; exact .full target locals stack

theorem DeltaFrame.Makes.hasTag {previous : List VerificationType} {delta : DeltaFrame}
    {frame : Frame} (h : delta.Makes previous frame) : delta.HasTag := by
  cases h with
  | chop target hone hthree hle => exact ⟨hone, hthree⟩
  | append target hone hthree => exact ⟨hone, hthree⟩
  | _ => trivial

/-- A difference takes no more bytes than the frame that it makes, spelled
    out. -/
theorem DeltaFrame.Makes.encodedLength_le_full {previous : List VerificationType}
    {delta : DeltaFrame} {frame : Frame} (h : delta.Makes previous frame) (distance : UInt16) :
    delta.encodedLength distance ≤
      (DeltaFrame.full frame.target frame.locals frame.stack).encodedLength distance := by
  cases h with
  | same target =>
    simp only [DeltaFrame.encodedLength]
    split <;> omega
  | sameOne target operand =>
    simp only [DeltaFrame.encodedLength, encodedLengths]
    split <;> omega
  | chop target =>
    simp only [DeltaFrame.encodedLength]
    omega
  | append target =>
    simp only [DeltaFrame.encodedLength, encodedLengths_append]
    omega
  | full target locals stack => exact Nat.le_refl _

namespace Frame

/-- Where the locals are as before, the smallest difference says the operand. -/
theorem delta_operand (previous : List VerificationType) (target : Label)
    (operand : VerificationType) :
    delta previous ⟨target, previous, [operand]⟩ = .sameOne target operand := by
  rw [delta, if_neg fun h => nomatch h.2]
  exact if_pos rfl

/-- Where locals were taken away, the smallest difference says how many. -/
theorem delta_take {previous : List VerificationType} {count : UInt8} (target : Label)
    (hone : 1 ≤ count) (hthree : count ≤ 3) (hle : count.toNat ≤ previous.length) :
    delta previous ⟨target, previous.take (previous.length - count.toNat), []⟩ =
      .chop target count := by
  have hpos : 1 ≤ count.toNat := UInt8.le_iff_toNat_le.mp hone
  have hmost : count.toNat ≤ 3 := UInt8.le_iff_toNat_le.mp hthree
  have hlength : (previous.take (previous.length - count.toNat)).length =
      previous.length - count.toNat := by
    rw [List.length_take]
    omega
  have hne : previous.take (previous.length - count.toNat) ≠ previous := by
    intro heq
    have := congrArg List.length heq
    omega
  have hfewer : previous.length - (previous.length - count.toNat) = count.toNat := by omega
  rw [delta, if_neg fun h => hne h.1]
  dsimp only
  rw [hlength, hfewer, if_pos ⟨hpos, hmost, List.take_prefix _ _⟩, UInt8.ofNat_toNat]

/-- Where locals were added, the smallest difference says which. -/
theorem delta_append {previous added : List VerificationType} (target : Label)
    (hone : 1 ≤ added.length) (hthree : added.length ≤ 3) :
    delta previous ⟨target, previous ++ added, []⟩ = .append target added := by
  have hlength : (previous ++ added).length = previous.length + added.length :=
    List.length_append
  have hne : previous ++ added ≠ previous := by
    intro heq
    have := congrArg List.length heq
    omega
  have hmore : (previous ++ added).length - previous.length = added.length := by omega
  rw [delta, if_neg fun h => hne h.1]
  dsimp only
  rw [if_neg fun h => by omega, hmore, if_pos ⟨hone, hthree, List.prefix_append _ _⟩,
    List.drop_left]

/-- **Of all differences with a tag that make a frame**, the smallest one takes
    the fewest bytes. -/
theorem encodedLength_delta_le {previous : List VerificationType} {frame : Frame}
    {other : DeltaFrame} (h : other.Makes previous frame) (distance : UInt16) :
    (frame.delta previous).encodedLength distance ≤ other.encodedLength distance := by
  have hsame : ∀ delta, frame.delta previous = delta →
      (frame.delta previous).encodedLength distance ≤ delta.encodedLength distance :=
    fun _ heq => Nat.le_of_eq (congrArg (DeltaFrame.encodedLength distance) heq)
  -- Any other form than the frame spelled out is the smallest one itself.
  cases h with
  | same target => exact hsame _ (if_pos ⟨rfl, rfl⟩)
  | sameOne target operand => exact hsame _ (delta_operand previous target operand)
  | chop target hone hthree hle => exact hsame _ (delta_take target hone hthree hle)
  | append target hone hthree => exact hsame _ (delta_append target hone hthree)
  | full target locals stack =>
    exact (makes_delta previous ⟨target, locals, stack⟩).encodedLength_le_full distance

end Frame

/-! ## The smallest differences of a list -/

theorem hasTag_compress (initial : List VerificationType) (frames : List Frame) :
    ∀ delta ∈ compress initial frames, delta.HasTag := by
  induction frames generalizing initial with
  | nil => nofun
  | cons frame frames ih =>
    exact List.forall_mem_cons.mpr ⟨(frame.makes_delta initial).hasTag, ih frame.locals⟩

/-- One difference takes no more bytes than another one, at whatever distance
    from the frame before both are written. -/
def DeltaFrame.Fits (smaller larger : DeltaFrame) : Prop :=
  ∀ distance, smaller.encodedLength distance ≤ larger.encodedLength distance

/-- Of all differences that make frames, the ones in `compress` take the fewest
    bytes, each in its place. -/
theorem fits_of_expandRev {deltas : List DeltaFrame} {done frames : List Frame}
    {initial : List VerificationType} (htags : ∀ delta ∈ deltas, delta.HasTag)
    (h : expandRev done initial deltas = .ok frames) :
    ∃ later, frames = done.reverse ++ later ∧
      List.Forall₂ DeltaFrame.Fits (compress initial later) deltas := by
  induction deltas generalizing done initial with
  | nil =>
    cases h
    exact ⟨[], (List.append_nil _).symm, .nil⟩
  | cons delta deltas ih =>
    rw [List.forall_mem_cons] at htags
    obtain ⟨frame, hframe, h⟩ := Result.bind_eq_ok.mp h
    obtain ⟨later, rfl, hlater⟩ := ih htags.2 h
    have hmakes := makes_of_apply htags.1 hframe
    refine ⟨frame :: later, ?_, .cons (Frame.encodedLength_delta_le hmakes) hlater⟩
    rw [List.reverse_cons, List.append_assoc, List.singleton_append]

/-- **Compression loses nothing and no other differences are smaller**: the
    differences in `compress` are spelled out as the frames, there are tags for
    them, and each takes no more bytes than the one in its place among any
    differences with tags that are spelled out as these frames.  What is written
    of a difference has the length that is compared. -/
theorem compress_smallest (initial : List VerificationType) (frames : List Frame) :
    expand initial (compress initial frames) = .ok frames ∧
      (∀ delta ∈ compress initial frames, delta.HasTag) ∧
      (∀ deltas, (∀ delta ∈ deltas, delta.HasTag) → expand initial deltas = .ok frames →
        List.Forall₂ DeltaFrame.Fits (compress initial frames) deltas) ∧
      ∀ layout distance delta linker w next,
        StackMap.writeDelta layout distance delta linker = .ok w next →
          w.length = delta.encodedLength distance := by
  refine ⟨expand_compress initial frames, hasTag_compress initial frames, ?_, ?_⟩
  · intro deltas htags h
    obtain ⟨later, rfl, hfits⟩ := fits_of_expandRev htags h
    exact hfits
  · intro layout distance delta linker w next h
    exact StackMap.length_writeDelta h

/-- Two frames, each spelled out, against one that adds a local and one that
    takes it away. -/
theorem compress_smallest_full :
    let deltas : List DeltaFrame := [.full 0 [.integer, .top] [], .full 2 [.integer] []]
    compress [.integer] [⟨0, [.integer, .top], []⟩, ⟨2, [.integer], []⟩] =
        [.append 0 [.top], .chop 2 1] ∧
      (∀ delta ∈ deltas, delta.HasTag) ∧
      expand [.integer] deltas = .ok [⟨0, [.integer, .top], []⟩, ⟨2, [.integer], []⟩] ∧
      List.Forall₂ DeltaFrame.Fits [.append 0 [.top], .chop 2 1] deltas := by
  intro deltas
  have htags : ∀ delta ∈ deltas, delta.HasTag :=
    List.forall_mem_cons.mpr ⟨trivial, List.forall_mem_singleton.mpr trivial⟩
  have hexpand : expand [.integer] deltas =
      .ok [⟨0, [.integer, .top], []⟩, ⟨2, [.integer], []⟩] := rfl
  have hcompress : compress [.integer] [⟨0, [.integer, .top], []⟩, ⟨2, [.integer], []⟩] =
      [.append 0 [.top], .chop 2 1] := by decide
  refine ⟨hcompress, htags, hexpand, ?_⟩
  rw [← hcompress]
  exact (compress_smallest [.integer] _).2.2.1 deltas htags hexpand

end JvmClass
