/-
  Annotations that are read where they may nest as deep, or less deep.

  * `follows_readValueWithin`: where values may nest less deep, and against a
    pool that goes on, the same value is read, or it nests too deep;
  * `Reader.Refuses`: a reader fails on some bytes, wherever it stands;
  * `RoundTrips`: what was written is read as it was against every pool that
    goes on, or it is refused, as it nests too deep;
  * `roundTrips_annotations`: element values, annotations and lists of them.
-/
import JvmClass.Proofs.Annotation.Decoded
import JvmClass.Proofs.Bytes.Follows
import JvmClass.Proofs.Linkage.Begins

namespace JvmClass

namespace Reader

/-- Wherever it stands, `reader` fails for `cause` on `w`. -/
def Refuses {α : Type} (reader : Reader α) (w : Bytes) (cause : Malformed) : Prop :=
  ∀ before after, ∃ c, reader (.between before (w ++ after)) = .error cause c

namespace Follows

variable {α β : Type} {x y : Reader α} {f g : α → Reader β} {E : Malformed → Prop}

theorem bindEq (h : Follows x y (· = ·) E) (hf : ∀ a, Follows (f a) (g a) (· = ·) E) :
    Follows (x >>= f) (y >>= g) (· = ·) E :=
  h.bind fun a _ hab => hab ▸ hf a

theorem timesEq (h : Follows x y (· = ·) E) (n : Nat) :
    Follows (Reader.times n x) (Reader.times n y) (· = ·) E :=
  (h.times n).mono fun _ _ hab => List.forall₂_eq_eq_eq ▸ hab

theorem counted (h : Follows x y (· = ·) E) :
    Follows (do Reader.times (← u2).toNat x) (do Reader.times (← u2).toNat y) (· = ·) E :=
  .after fun count => h.timesEq count.toNat

/-- An index that stands for something in one pool, and for the same in the
    other one. -/
theorem index {e e' : Pool.Index → Except Malformed α}
    (h : ∀ index a, e index = .ok a → e' index = .ok a)
    (hf : ∀ a, Follows (f a) (g a) (· = ·) E) :
    Follows (u2 >>= fun index => (liftM (e index) : Reader α) >>= f)
      (u2 >>= fun index => (liftM (e' index) : Reader α) >>= g) (· = ·) E :=
  .after fun index => .lift (.of_grows (h index)) fun a _ hab => hab ▸ hf a

/-- A reader that follows one which reads `a` reads it as well, or fails. -/
theorem reads_or (h : Follows x y (· = ·) E) {w : Bytes} {a : α} (hx : Reads x w a)
    (before after : Bytes) : ReadsAt before after y w a ∨
      ∃ cause c, y (.between before (w ++ after)) = .error cause c ∧ E cause := by
  rcases h _ _ _ (hx before after) with ⟨b, hy, rfl⟩ | hrefused
  · exact .inl hy
  · exact .inr hrefused

end Follows

end Reader

namespace Annotations

open Reader

/-! ## Depths and pools -/

section
variable {small large : Pool} (hpool : small.entries.toList <+: large.entries.toList)
include hpool

theorem begins_of_initial : Linkage.Begins ⟨small, #[]⟩ ⟨large, #[]⟩ :=
  ⟨hpool, List.prefix_refl _⟩

theorem integerAt_of_initial {index : Pool.Index} {value : Int32}
    (h : integerAt small index = .ok value) : integerAt large index = .ok value :=
  Result.bind_grows h (fun _ => Linkage.get_of_begins (begins_of_initial hpool)) fun _ h => h

theorem doubleAt_of_initial {index : Pool.Index} {bits : UInt64}
    (h : doubleAt small index = .ok bits) : doubleAt large index = .ok bits :=
  Result.bind_grows h (fun _ => Linkage.get_of_begins (begins_of_initial hpool)) fun _ h => h

theorem floatAt_of_initial {index : Pool.Index} {bits : UInt32}
    (h : floatAt small index = .ok bits) : floatAt large index = .ok bits :=
  Result.bind_grows h (fun _ => Linkage.get_of_begins (begins_of_initial hpool)) fun _ h => h

theorem longAt_of_initial {index : Pool.Index} {value : Int64}
    (h : longAt small index = .ok value) : longAt large index = .ok value :=
  Result.bind_grows h (fun _ => Linkage.get_of_begins (begins_of_initial hpool)) fun _ h => h

theorem utf8_of_initial {index : Pool.Index} {text : String}
    (h : small.utf8 index = .ok text) : large.utf8 index = .ok text :=
  Linkage.utf8_of_begins (begins_of_initial hpool) h

end

/-- A value nests too deep for the smaller of two depths. -/
def TooDeep (depth smaller : Nat) (cause : Malformed) : Prop :=
  cause = .annotationDepth maxNesting ∧ smaller < depth

section
variable {small large : Pool} (hpool : small.entries.toList <+: large.entries.toList)
include hpool

theorem follows_readWith {x y : Reader ElementValue} {E : Malformed → Prop}
    (h : Follows x y (· = ·) E) : Follows (readWith small x) (readWith large y) (· = ·) E := by
  have hutf8 : ∀ index text, small.utf8 index = .ok text → large.utf8 index = .ok text :=
    fun _ _ => utf8_of_initial hpool
  refine .index hutf8 fun descriptor => .after fun count => ?_
  refine (Follows.timesEq ?_ _).bindEq fun values => .pure rfl
  exact .index hutf8 fun name => h.bindEq fun value => .pure rfl

/-- **Where values may nest less deep, and against a pool that goes on, the same
    value is read, or it nests too deep.** -/
theorem follows_readValueWithin (depth smaller : Nat) :
    Follows (readValueWithin small depth) (readValueWithin large smaller) (· = ·)
      (TooDeep depth smaller) := by
  induction depth generalizing smaller with
  | zero => exact fun c a d hrun => nomatch (show EStateM.Result.error _ c = .ok a d from hrun)
  | succ depth ih =>
    cases smaller with
    | zero => exact fun c a d _ => .inr ⟨_, c, rfl, rfl, Nat.succ_pos depth⟩
    | succ smaller =>
      have hinner : Follows (readValueWithin small depth) (readValueWithin large smaller) (· = ·)
          (TooDeep (depth + 1) (smaller + 1)) :=
        (ih smaller).causes fun _ h => ⟨h.1, Nat.succ_lt_succ h.2⟩
      rw [readValueWithin_succ, readValueWithin_succ]
      refine .after fun tag => ?_
      unfold valueOperands
      split
      -- an enumeration constant, an annotation, an array, the tags of no value,
      -- and everything else, which is one entry of the pool
      case h_10 =>
        refine .index (fun _ _ => utf8_of_initial hpool) fun descriptor => ?_
        exact .index (fun _ _ => utf8_of_initial hpool) fun name => .pure rfl
      case h_12 => exact (follows_readWith hpool hinner).bindEq fun _ => .pure rfl
      case h_13 => exact .after fun count => (hinner.timesEq _).bindEq fun _ => .pure rfl
      case h_14 => exact .same
      case h_6 => exact .index (fun _ _ => doubleAt_of_initial hpool) fun _ => .pure rfl
      case h_7 => exact .index (fun _ _ => floatAt_of_initial hpool) fun _ => .pure rfl
      case h_8 => exact .index (fun _ _ => longAt_of_initial hpool) fun _ => .pure rfl
      case h_9 | h_11 => exact .index (fun _ _ => utf8_of_initial hpool) fun _ => .pure rfl
      all_goals exact .index (fun _ _ => integerAt_of_initial hpool) fun _ => .pure rfl

theorem follows_readOneWithin (depth smaller : Nat) :
    Follows (readWith small (readValueWithin small depth))
      (readWith large (readValueWithin large smaller)) (· = ·) (TooDeep depth smaller) :=
  follows_readWith hpool (follows_readValueWithin hpool depth smaller)

end

theorem follows_readTypeWith {labels : Option LabelMap} {x y : Reader Annotation}
    {E : Malformed → Prop} (h : Follows x y (· = ·) E) :
    Follows (readTypeWith labels x) (readTypeWith labels y) (· = ·) E :=
  .after fun _ => .after fun _ => .after fun _ => h.bindEq fun _ => .pure rfl

/-! ## Round trips -/

section
variable {α : Type}

/-- From every linker that is in order, what `write` makes of `a` is read as `a`
    against every pool that goes on from the one of the linker, if `a` nests;
    otherwise it is refused.  The linker stays in order. -/
def RoundTrips (write : α → Linking Bytes) (read : Pool → Reader α) (nests : α → Prop)
    (a : α) : Prop :=
  ∀ (s t : Linker) (w : Bytes), s.Valid → write a s = .ok w t → t.Valid ∧
    ∀ pool : Pool, t.pool.entries.toList <+: pool.entries.toList →
      (nests a → Reads (read pool) w a) ∧
      (¬ nests a → Refuses (read pool) w (.annotationDepth maxNesting))

/-- What is read wherever values may nest as deep as it does makes a round trip,
    as nothing else is read where they may not. -/
theorem roundTrips_of_within {write : α → Linking Bytes} (read : Nat → Pool → Reader α)
    (nests : Nat → α → Prop) {a : α} (hdeep : ∃ depth, nests depth a)
    (hwrite : ∀ depth, nests depth a →
      Yields (write a) fun linker w => Reads (read depth linker.toLinkage.pool) w a)
    (hfollows : ∀ small large : Pool, small.entries.toList <+: large.entries.toList →
      ∀ depth smaller, Follows (read depth small) (read smaller large) (· = ·)
        (TooDeep (depth + 1) (smaller + 1)))
    (hproduces : ∀ pool, Produces (read maxNesting pool) (nests maxNesting)) :
    RoundTrips write (read maxNesting) (nests maxNesting) a := by
  intro s t w hs hrun
  obtain ⟨depth, hdepth⟩ := hdeep
  obtain ⟨ht, -, hreads⟩ := hwrite depth hdepth s w t hs hrun
  refine ⟨ht, fun pool hpool => ⟨fun hnests before after => ?_, fun hnests before after => ?_⟩⟩
  · obtain ⟨-, -, hreads⟩ := hwrite _ hnests s w t hs hrun
    rcases (hfollows _ pool hpool _ _).reads_or (hreads t ht (Growing.refl t)) before after with
      h | ⟨_, _, -, -, hlt⟩
    · exact h
    · exact absurd hlt (Nat.lt_irrefl _)
  · rcases (hfollows _ pool hpool _ _).reads_or (hreads t ht (Growing.refl t)) before after with
      h | ⟨_, c, h, rfl, -⟩
    · exact absurd (hproduces pool _ _ _ h) hnests
    · exact ⟨c, h⟩

end

theorem roundTrips_value (value : ElementValue) :
    RoundTrips writeValue readValue (fun value => value.depth ≤ maxNesting) value := by
  refine roundTrips_of_within (fun depth pool => readValueWithin pool (depth + 1))
    (fun depth value => value.depth ≤ depth) ⟨value.depth, Nat.le_refl _⟩ ?_ ?_ ?_
  · intro depth hdepth
    exact (yields_writeValue value).mono fun _ _ _ h => h _ (Nat.lt_succ_of_le hdepth)
  · exact fun _ _ hpool _ _ => follows_readValueWithin hpool _ _
  · exact fun _ => produces_readValue.mono fun _ h => h.2

theorem roundTrips_one (a : Annotation) :
    RoundTrips writeOne readOne Annotation.Nests a := by
  refine roundTrips_of_within
    (fun depth pool => readWith pool (readValueWithin pool (depth + 1)))
    (fun depth a => ∀ pair ∈ a.values, pair.2.depth ≤ depth) ?_ ?_ ?_ ?_
  · exact ⟨_, fun pair hpair => Nat.le_of_lt (ElementValue.depth_lt_pairDepths hpair)⟩
  · exact fun depth hdepth =>
      yields_writeOneWithin fun pair hpair => Nat.lt_succ_of_le (hdepth pair hpair)
  · exact fun _ _ hpool _ _ => follows_readOneWithin hpool _ _
  · exact fun _ => produces_readOne.mono fun _ h => h.2

theorem exists_depth {α : Type} (content : α → Annotation) (items : List α) :
    ∃ depth, ∀ a ∈ items, ∀ pair ∈ (content a).values, pair.2.depth ≤ depth :=
  ⟨_, fun a ha _ hpair => Nat.le_of_lt <| ElementValue.depth_lt_pairDepths <|
    List.mem_flatMap.mpr ⟨a, ha, hpair⟩⟩

theorem roundTrips_list (annotations : List Annotation) :
    RoundTrips writeList readList (fun list => ∀ a ∈ list, a.Nests) annotations := by
  refine roundTrips_of_within
    (fun depth pool => do times (← u2).toNat (readWith pool (readValueWithin pool (depth + 1))))
    (fun depth list => ∀ a ∈ list, ∀ pair ∈ a.values, pair.2.depth ≤ depth)
    (exists_depth id annotations) ?_ ?_ ?_
  · exact fun depth hdepth => Yields.counted fun a ha =>
      yields_writeOneWithin fun pair hpair => Nat.lt_succ_of_le (hdepth a ha pair hpair)
  · exact fun _ _ hpool _ _ => (follows_readOneWithin hpool _ _).counted
  · exact fun _ => produces_readList.mono fun _ h a ha => (h.2 a ha).2

theorem roundTrips_typeList {layout : Option Layout} {labels : Option LabelMap}
    (hlabels : Recovers layout labels) {annotations : List TypeAnnotation}
    (htagged : ∀ a ∈ annotations, a.target.Tagged) :
    RoundTrips (writeTypeList layout) (fun pool => readTypeList pool labels)
      (fun list => ∀ a ∈ list, a.content.Nests) annotations := by
  refine roundTrips_of_within
    (fun depth pool => do
      times (← u2).toNat (readTypeWith labels (readWith pool (readValueWithin pool (depth + 1)))))
    (fun depth list => ∀ a ∈ list, ∀ pair ∈ a.content.values, pair.2.depth ≤ depth)
    (exists_depth TypeAnnotation.content annotations) ?_ ?_ ?_
  · exact fun depth hdepth => Yields.counted fun a ha =>
      yields_writeTypeWith hlabels (htagged a ha) <|
        yields_writeOneWithin fun pair hpair => Nat.lt_succ_of_le (hdepth a ha pair hpair)
  · exact fun _ _ hpool _ _ => (follows_readTypeWith (follows_readOneWithin hpool _ _)).counted
  · intro pool
    have hone : Produces (readOneType pool labels) fun a => a.content.Nests :=
      .after fun _ => .after fun _ => .after fun _ =>
        produces_readOne.bind fun _ h => .pure h.2
    exact hone.counted.mono fun _ h => h.2

/-- **Element values, annotations and lists of them make round trips**, whatever
    the linker holds before: each is read as it was written where it nests no
    deeper than the limit, with any bytes behind it, and refused otherwise.
    The targets of type annotations need a tag of their shape, and a map of
    labels that takes the offsets of the layout back. -/
theorem roundTrips_annotations :
    (∀ value, RoundTrips writeValue readValue (fun value => value.depth ≤ maxNesting) value) ∧
    (∀ a, RoundTrips writeOne readOne Annotation.Nests a) ∧
    (∀ list, RoundTrips writeList readList (fun list => ∀ a ∈ list, a.Nests) list) ∧
    ∀ layout labels, Recovers layout labels → ∀ list : List TypeAnnotation,
      (∀ a ∈ list, a.target.Tagged) →
        RoundTrips (writeTypeList layout) (fun pool => readTypeList pool labels)
          (fun list => ∀ a ∈ list, a.content.Nests) list :=
  ⟨roundTrips_value, roundTrips_one, roundTrips_list, fun _ _ hlabels _ htagged =>
    roundTrips_typeList hlabels htagged⟩

/-- An annotation of a type argument in a method body of two instructions, with
    an array for a value. -/
theorem roundTrips_annotations_typeArgument :
    let a : TypeAnnotation :=
      ⟨.typeArgument 0x47 1 0, [⟨3, 1⟩], ⟨"LA;", [("v", .array [.int 1, .boolean true])]⟩⟩
    ∃ w t, writeTypeList (some ⟨#[0, 3, 4]⟩) [a] .empty = .ok w t ∧
      Reads (readTypeList t.pool.toPool (LabelMap.ofOffsets [0, 3] 4)) w [a] := by
  intro a
  obtain ⟨w, t, hrun⟩ : ∃ w t, writeTypeList (some ⟨#[0, 3, 4]⟩) [a] .empty = .ok w t := by
    simp [a, writeTypeList, writeOneType, writeTarget, needLayout, Layout.offset, writeOne,
      writePairs, writeValue, writeValues, tagged, Linking.count, Linking.each, Linking.eachRev,
      Pool.Intern.utf8, Pool.add_mk, Pool.Entry.slots, Pool.Entry.isWide, Pool.Builder.maxSlots,
      Pool.Builder.empty, Linker.empty, liftM, monadLift, MonadLift.monadLift,
      Linking.ofInterning, Linking.ofExcept, Except.bind, Except.pure, Bind.bind, EStateM.bind,
      Pure.pure, EStateM.pure]
  have hlabels : Recovers (some ⟨#[0, 3, 4]⟩) (LabelMap.ofOffsets [0, 3] 4) :=
    .some ⟨rfl, by decide, by decide⟩
  obtain ⟨-, -, -, htypes⟩ := roundTrips_annotations
  have htrip := htypes _ _ hlabels [a] (List.forall_mem_singleton.mpr (by
    exact ⟨by decide, by decide⟩)) .empty t w Linker.valid_empty hrun
  refine ⟨w, t, hrun, (htrip.2 t.pool.toPool (List.prefix_refl _)).1 ?_⟩
  simp [a, Annotation.Nests, ElementValue.depth, ElementValue.depths, maxNesting]

end Annotations

end JvmClass
