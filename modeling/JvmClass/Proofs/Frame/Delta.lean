/-
  Frames as differences and spelled out.

  * `DeltaFrame.Makes`: a difference with a tag makes a frame; so does the
    smallest one, `Frame.makes_delta`;
  * `expand_compress`: the smallest differences that make frames are spelled
    out as these frames;
  * `Frames.shown`: frames in the form that a reader asks for.
-/
import JvmClass.Frame.Delta
import JvmClass.Proofs.Result

namespace JvmClass

/-! ## Smallest differences -/

/-- The difference `delta` makes a frame of the locals `previous`, and there is a
    tag for the number of locals that it takes away or adds. -/
inductive DeltaFrame.Makes (previous : List VerificationType) : DeltaFrame → Frame → Prop where
  | same (target : Label) : Makes previous (.same target) ⟨target, previous, []⟩
  | sameOne (target : Label) (operand : VerificationType) :
    Makes previous (.sameOne target operand) ⟨target, previous, [operand]⟩
  | chop (target : Label) {count : UInt8} (hone : 1 ≤ count) (hthree : count ≤ 3)
    (hle : count.toNat ≤ previous.length) :
    Makes previous (.chop target count) ⟨target, previous.take (previous.length - count.toNat), []⟩
  | append (target : Label) {added : List VerificationType} (hone : 1 ≤ added.length)
    (hthree : added.length ≤ 3) :
    Makes previous (.append target added) ⟨target, previous ++ added, []⟩
  | full (target : Label) (locals stack : List VerificationType) :
    Makes previous (.full target locals stack) ⟨target, locals, stack⟩

theorem DeltaFrame.Makes.apply_eq {previous : List VerificationType} {delta : DeltaFrame}
    {frame : Frame} (h : delta.Makes previous frame) : delta.apply previous = .ok frame := by
  cases h with
  | chop target hone hthree hle => exact if_neg (Nat.not_lt.mpr hle)
  | _ => rfl

theorem Frame.makes_delta (previous : List VerificationType) (frame : Frame) :
    (frame.delta previous).Makes previous frame := by
  obtain ⟨target, locals, stack⟩ := frame
  unfold Frame.delta
  dsimp only
  split
  next h =>
    obtain ⟨rfl, rfl⟩ := h
    exact .same target
  next =>
    split
    next operand _ =>
      split
      next h =>
        subst h
        exact .sameOne target operand
      next => exact .full target locals [operand]
    next =>
      split
      next h =>
        obtain ⟨hone, hthree, hprefix⟩ := h
        have hcount : (UInt8.ofNat (previous.length - locals.length)).toNat =
            previous.length - locals.length := by
          rw [UInt8.toNat_ofNat']
          omega
        have hkept : previous.length - (previous.length - locals.length) = locals.length := by omega
        rw [← hcount] at hone hthree
        have hmakes := DeltaFrame.Makes.chop target (UInt8.le_iff_toNat_le.mpr hone)
          (UInt8.le_iff_toNat_le.mpr hthree) (Nat.le_trans (Nat.le_of_eq hcount) (Nat.sub_le ..))
        rwa [hcount, hkept, ← List.prefix_iff_eq_take.mp hprefix] at hmakes
      next =>
        split
        next h =>
          obtain ⟨hone, hthree, added, rfl⟩ := h
          rw [List.length_append, Nat.add_sub_cancel_left] at hone hthree
          rw [List.drop_left]
          exact .append target hone hthree
        next => exact .full target locals []
    next => exact .full target locals _

theorem expandRev_compress (done : List Frame) (initial : List VerificationType)
    (frames : List Frame) :
    expandRev done initial (compress initial frames) = .ok (done.reverse ++ frames) := by
  induction frames generalizing done initial with
  | nil => rw [List.append_nil]; rfl
  | cons frame frames ih =>
    have hnext : expandRev (frame :: done) frame.locals (compress frame.locals frames) =
        .ok (done.reverse ++ frame :: frames) := by
      rw [ih, List.reverse_cons, List.append_assoc, List.singleton_append]
    exact Result.bind_eq_ok.mpr ⟨frame, (frame.makes_delta initial).apply_eq, hnext⟩

/-- **The smallest differences that make frames** are spelled out as these
    frames. -/
theorem expand_compress (initial : List VerificationType) (frames : List Frame) :
    expand initial (compress initial frames) = .ok frames :=
  expandRev_compress [] initial frames

/-! ## The form that is asked for -/

namespace Frames

variable {initial : Except Malformed (List VerificationType)}

/-- Frames in the form that is asked for, in a method with the locals `initial`
    on entry: `spelled` out, or as they are. -/
def shown (spelled : Bool) (initial : Except Malformed (List VerificationType)) :
    Frames → Except Malformed Frames
  | compressed deltas =>
    if spelled then do return .expanded (← expand (← initial) deltas)
    else return .compressed deltas
  | expanded frames => return .expanded frames

@[simp] theorem shown_false (frames : Frames) : frames.shown false initial = .ok frames := by
  cases frames <;> rfl

/-- What was shown is shown again as asked for both times. -/
theorem shown_shown {frames once : Frames} {first second : Bool}
    (h : frames.shown first initial = .ok once) :
    frames.shown (first || second) initial = once.shown second initial := by
  cases frames with
  | expanded frames => cases h; rfl
  | compressed deltas =>
    cases first with
    | false => cases h; rfl
    | true =>
      obtain ⟨locals, -, h'⟩ := Result.bind_eq_ok.mp h
      obtain ⟨frames, -, h'⟩ := Result.bind_eq_ok.mp h'
      cases h'
      exact h

end Frames

end JvmClass
