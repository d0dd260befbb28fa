/-
  When stack map tables can be written, and that they are read as they were.

  * `read_follows`: what is read with a pool is read with every pool that goes
    on from there;
  * `write_exact`: a table is written if its frames lie within the method body
    and ascend, and only then, unless the pool is full; what was written is
    read as the same frames.
-/
import JvmClass.Proofs.Bytes.Follows
import JvmClass.Proofs.Frame.Binary
import JvmClass.Proofs.Frame.Writable
import JvmClass.Proofs.Linkage.Begins
import JvmClass.Proofs.Pool.Requests

namespace JvmClass

namespace Linking

theorem enters_anyType (name : String) :
    Enters (fun _ => True) (liftM (Pool.Intern.classRef name) : Linking Pool.Index) [.type name]
      (fun _ => True) Invalid.PoolFull :=
  .single rfl fun _ _ => ⟨fun _ _ _ => ⟨trivial, trivial⟩, fun _ _ h =>
    (Pool.Request.adds_index (.classRef name)).full _ _ _ (lift_eq_error h)⟩

end Linking

namespace StackMap

open Reader

/-! ## Pools that go on -/

section
variable {pool larger : Pool} {labels : LabelMap} {E : Malformed → Prop}

theorem readType_follows (h : pool.entries.toList <+: larger.entries.toList) :
    Reader.Follows (readType pool labels) (readType larger labels) (· = ·) E := by
  have hbegins : Linkage.Begins ⟨pool, #[]⟩ ⟨larger, #[]⟩ := ⟨h, List.prefix_refl _⟩
  refine .after fun tag => ?_
  split
  case h_8 =>
    refine .after fun index => .lift (R := (· = ·)) ?_ fun name name' hname => .pure (hname ▸ rfl)
    exact fun name hname => .inl ⟨name, Linkage.className_of_begins hbegins hname, rfl⟩
  all_goals exact .same

theorem times_follows (h : pool.entries.toList <+: larger.entries.toList) (n : Nat) :
    Reader.Follows (times n (readType pool labels)) (times n (readType larger labels)) (· = ·) E :=
  ((readType_follows h).times n).mono fun _ _ heq => List.forall₂_eq_eq_eq ▸ heq

theorem readRest_follows (h : pool.entries.toList <+: larger.entries.toList) (tag : UInt8)
    (target : Label) :
    Reader.Follows (readRest pool labels tag target) (readRest larger labels tag target)
      (· = ·) E := by
  have hcounted : Reader.Follows (readTypes pool labels) (readTypes larger labels) (· = ·) E :=
    .after fun count => times_follows h count.toNat
  refine .ite (fun _ => .same) fun _ => .ite (fun _ => ?_) fun _ => .ite (fun _ => .same) fun _ =>
    .ite (fun _ => ?_) fun _ => ?_
  · exact (readType_follows h).bind fun _ _ heq => .pure (heq ▸ rfl)
  · exact (times_follows h _).bind fun _ _ heq => .pure (heq ▸ rfl)
  · refine hcounted.bind fun locals _ hlocals => hcounted.bind fun stack _ hstack => .pure ?_
    rw [hlocals, hstack]

/-- **What is read with a pool** is read with every pool that goes on from
    there. -/
theorem read_follows (h : pool.entries.toList <+: larger.entries.toList) :
    Reader.Follows (read pool labels) (read larger labels) (· = ·) E := by
  refine .after fun count => Reader.Follows.bind (R := (· = ·)) ?_ fun _ _ heq => heq ▸ .same
  refine Reader.Follows.fold ?_ count.toNat rfl
  rintro ⟨previous, done⟩ _ rfl
  refine Reader.Follows.bind (R := (· = ·)) ?_ fun _ _ heq => heq ▸ .same
  refine .after fun tag => .after fun delta => .after fun target => ?_
  exact (readRest_follows h tag target).bind fun _ _ heq => heq ▸ .same

end

/-- What was written is read with every pool that goes on from there. -/
theorem reads_of_write {layout : Layout} {starts : List Nat} {length : Nat}
    (hlayout : layout.Ascends starts length) {frames : List DeltaFrame} {linker next : Linker}
    (hlinker : linker.Valid) {w : Bytes} (h : write layout frames linker = .ok w next)
    {pool : Pool} (hpool : next.pool.entries.toList <+: pool.entries.toList) :
    Reads (read pool (.ofOffsets starts length)) w frames := by
  obtain ⟨hnext, -, hread⟩ := yields_write hlayout frames linker w next hlinker h
  have hown := hread next hnext (Growing.refl next)
  intro before after
  rcases read_follows (E := fun _ => False) hpool _ _ _ (hown before after) with
    ⟨frames', hrun, rfl⟩ | ⟨-, -, -, hcause⟩
  · exact hrun
  · exact hcause.elim

/-- A table whose frames ascend within a method body is written, or the pool is
    full. -/
theorem write_or_full {layout : Layout} {starts : List Nat} {length : Nat}
    (hlayout : layout.Ascends starts length) {frames : List DeltaFrame}
    (hcount : frames.length ≤ 0xFFFF) (hwithin : ∀ frame ∈ frames, frame.Within starts.length)
    (hascend : (frames.map DeltaFrame.target).Pairwise (· < ·)) (linker : Linker) :
    (∃ w next, write layout frames linker = .ok w next) ∨
      ∃ next, write layout frames linker = .error .poolFull next ∧
        Pool.Builder.maxSlots ≤ next.pool.size + 1 := by
  have hwrite := enters_write Linking.enters_anyType hlayout hcount hwithin hascend linker trivial
  cases h : write layout frames linker with
  | ok w next => exact .inl ⟨w, next, rfl⟩
  | error cause next =>
    obtain ⟨_, rfl, ⟨⟩, -, hsize⟩ := hwrite.2 cause next h
    exact .inr ⟨_, rfl, hsize⟩

/-- A table that was written has frames within the method body that ascend. -/
theorem within_of_write {layout : Layout} {starts : List Nat} {length : Nat}
    (hlayout : layout.Ascends starts length) {frames : List DeltaFrame} {linker next : Linker}
    (hlinker : linker.Valid) {w : Bytes} (h : write layout frames linker = .ok w next) :
    (Frames.compressed frames).Within starts.length := by
  have hown : next.pool.entries.toList <+: next.pool.toPool.entries.toList := List.prefix_refl _
  have hread := reads_of_write hlayout hlinker h hown
  exact produces_read (LabelMap.ascends_ofOffsets hlayout.ascending) _ _ _ (hread [] [])

end StackMap

/-- The layout of instructions that start at `starts`, in code of `length`
    bytes. -/
def Layout.ofOffsets (starts : List Nat) (length : Nat) : Layout := ⟨(starts ++ [length]).toArray⟩

theorem Layout.ascends_ofOffsets {starts : List Nat} {length : Nat}
    (hascending : (starts ++ [length]).Pairwise (· < ·)) (hlength : length ≤ Bytecode.maxLength) :
    (Layout.ofOffsets starts length).Ascends starts length where
  toList := rfl
  ascending := hascending
  le := hlength

/-- **A stack map table is written exactly if** its frames are for instructions
    of the method body, one behind the other, and their parts fit, unless no more
    than one slot of the pool is left; and what was written is read as these
    frames, with the labels of the same offsets and every pool that goes on from
    there. -/
theorem StackMap.write_exact {starts : List Nat} {length : Nat}
    (hascending : (starts ++ [length]).Pairwise (· < ·)) (hlength : length ≤ 0xFFFF)
    {linker : Linker} (hlinker : linker.Valid) (frames : List DeltaFrame) :
    let written := StackMap.write (.ofOffsets starts length) frames linker
    ((∃ w next, written = .ok w next) → (Frames.compressed frames).Within starts.length) ∧
      ((Frames.compressed frames).Within starts.length →
        (∃ w next, written = .ok w next) ∨
          ∃ next, written = .error .poolFull next ∧ 0xFFFF ≤ next.pool.size + 1) ∧
      ∀ w next, written = .ok w next →
        ∀ pool : Pool, next.pool.entries.toList <+: pool.entries.toList →
          Reader.Reads (StackMap.read pool (.ofOffsets starts length)) w frames := by
  have hlayout := Layout.ascends_ofOffsets hascending hlength
  refine ⟨?_, ?_, ?_⟩
  · rintro ⟨w, next, h⟩
    exact within_of_write hlayout hlinker h
  · rintro ⟨hcount, hwithin, hascend⟩
    exact write_or_full hlayout hcount hwithin hascend linker
  · intro w next h pool hpool
    exact reads_of_write hlayout hlinker h hpool

/-- A frame that adds a class and one that takes it away, for the second and
    the third of three instructions. -/
theorem StackMap.write_exact_chop :
    let frames : List DeltaFrame := [.append 1 [.object "A"], .chop 2 1]
    let bytes : Bytes := [0, 2, 252, 0, 1, 7, 0, 2, 250, 0, 2]
    ([0, 1, 4] ++ [5] : List Nat).Pairwise (· < ·) ∧ Linker.empty.Valid ∧
      (Frames.compressed frames).Within 3 ∧
      ∃ next, StackMap.write (.ofOffsets [0, 1, 4] 5) frames .empty = .ok bytes next ∧
        Reader.Reads (StackMap.read next.pool.toPool (.ofOffsets [0, 1, 4] 5)) bytes frames := by
  intro frames bytes
  have hascending : ([0, 1, 4] ++ [5] : List Nat).Pairwise (· < ·) := by decide
  have hexact := StackMap.write_exact hascending (by decide) Linker.valid_empty frames
  obtain ⟨next, hwrite⟩ : ∃ next,
      StackMap.write (.ofOffsets [0, 1, 4] 5) frames .empty = .ok bytes next := by
    simp [frames, StackMap.write, StackMap.writeFrames, StackMap.writeDelta, StackMap.delta,
      StackMap.writeTypes, StackMap.writeType, Layout.ofOffsets, Layout.count, DeltaFrame.target,
      Linking.count, Linking.each, Linking.eachRev, Pool.Intern.classRef, Pool.Intern.utf8,
      Pool.add_mk, Pool.Entry.slots, Pool.Entry.isWide, Pool.Builder.maxSlots,
      Pool.Builder.empty, Linker.empty, liftM, monadLift, MonadLift.monadLift,
      Linking.ofInterning, Linking.ofExcept, Bind.bind, EStateM.bind, Pure.pure, EStateM.pure,
      Functor.map, EStateM.map, Except.pure, bytes, Bytes.u2, Bytes.ofNat]
  refine ⟨hascending, Linker.valid_empty, hexact.1 ⟨bytes, next, hwrite⟩, next, hwrite, ?_⟩
  exact hexact.2.2 bytes next hwrite _ (List.prefix_refl _)

end JvmClass
