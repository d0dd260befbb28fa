/-
  Annotations survive writing.

  * `ElementValue.depth` says how deep a value nests;
  * `yields_writeValue`: a value is read as it was written wherever values may
    nest deeper than it does;
  * `TypeAnnotation.Target.Tagged`: the tag of a target is one that its shape
    stands for;
  * `Recovers`: a map of labels takes the offsets of a layout back;
  * `yields_writeList` and `yields_writeTypeList` are counted lists of
    annotations.
-/
import JvmClass.Annotation.Binary
import JvmClass.Proofs.Bytecode.Layout
import Mathlib.Data.FinEnum
import Mathlib.Data.Fintype.Basic

namespace JvmClass

namespace ElementValue

mutual

/-- How deep values nest in a value. -/
def depth : ElementValue → Nat
  | nested _ values => pairDepths values
  | array values => depths values
  | _ => 0

/-- How deep values nest above those in a list. -/
def depths : List ElementValue → Nat
  | [] => 0
  | value :: rest => max (value.depth + 1) (depths rest)

/-- How deep values nest above those in a list of named ones. -/
def pairDepths : List (String × ElementValue) → Nat
  | [] => 0
  | (_, value) :: rest => max (value.depth + 1) (pairDepths rest)

end

theorem depth_lt_depths {value : ElementValue} {values : List ElementValue}
    (h : value ∈ values) : value.depth < depths values := by
  induction h with
  | head => exact Nat.le_max_left ..
  | tail _ _ ih => exact Nat.lt_of_lt_of_le ih (Nat.le_max_right ..)

theorem depth_lt_pairDepths {pair : String × ElementValue}
    {values : List (String × ElementValue)} (h : pair ∈ values) :
    pair.2.depth < pairDepths values := by
  induction h with
  | head => exact Nat.le_max_left ..
  | tail _ _ ih => exact Nat.lt_of_lt_of_le ih (Nat.le_max_right ..)

end ElementValue

/-- The values of an annotation do not nest too deep to be read. -/
def Annotation.Nests (a : Annotation) : Prop :=
  ∀ pair ∈ a.values, pair.2.depth ≤ Annotations.maxNesting

/-- The tag of a target is one that its shape stands for. -/
def TypeAnnotation.Target.Tagged : TypeAnnotation.Target → Prop
  | typeParameter type _ => type ≤ 0x01
  | bound type _ _ => type = 0x11 ∨ type = 0x12
  | empty type => 0x13 ≤ type ∧ type ≤ 0x15
  | localVariable type _ => type = 0x40 ∨ type = 0x41
  | offset type _ => 0x43 ≤ type ∧ type ≤ 0x46
  | typeArgument type _ _ => 0x47 ≤ type ∧ type ≤ 0x4B
  | _ => True

/-- A type annotation that can be read again. -/
structure TypeAnnotation.Readable (a : TypeAnnotation) : Prop where
  tagged : a.target.Tagged
  nests : a.content.Nests

namespace Annotations

open Reader Bytes

/-! ## Element values -/

/-- Wherever values nest deeper than `value` does, it is read off `w`. -/
def ValueReads (pool : Pool) (w : Bytes) (value : ElementValue) : Prop :=
  ∀ depth, value.depth < depth → Reads (readValueWithin pool depth) w value

/-- Read what follows the tag `tag`, which is the letter `letter`, with
    `value` for the values inside. -/
def valueOperands (pool : Pool) (value : Reader ElementValue) (tag : UInt8) (letter : Char) :
    Reader ElementValue :=
  match letter with
  | 'B' => return .byte (← integerAt pool (← u2)).toInt8
  | 'C' => return .char (← integerAt pool (← u2)).toUInt32.toUInt16
  | 'I' => return .int (← integerAt pool (← u2))
  | 'S' => return .short (← integerAt pool (← u2)).toInt16
  | 'Z' => return .boolean ((← integerAt pool (← u2)) != 0)
  | 'D' => return .double (← doubleAt pool (← u2))
  | 'F' => return .float (← floatAt pool (← u2))
  | 'J' => return .long (← longAt pool (← u2))
  | 's' => return .string (← pool.utf8 (← u2))
  | 'e' => do
    let descriptor ← pool.utf8 (← u2)
    return .enum descriptor (← pool.utf8 (← u2))
  | 'c' => return .classLiteral (← pool.utf8 (← u2))
  | '@' => do
    let annotation ← readWith pool value
    return .nested annotation.descriptor annotation.values
  | '[' => return .array (← times (← u2).toNat value)
  | _ => throw (.elementTag tag)

theorem readValueWithin_succ (pool : Pool) (depth : Nat) :
    readValueWithin pool (depth + 1) = (do
      let tag ← u1
      valueOperands pool (readValueWithin pool depth) tag (Char.ofNat tag.toNat)) := rfl

section
variable {pool : Pool} {w : Bytes} {v : ElementValue}

theorem valueReads_of_letter (letter : Char)
    (hletter : Char.ofNat (UInt8.ofNat letter.toNat).toNat = letter)
    (h : ∀ depth, v.depth ≤ depth →
      Reads (valueOperands pool (readValueWithin pool depth) (UInt8.ofNat letter.toNat) letter) w
        v) :
    ValueReads pool (UInt8.ofNat letter.toNat :: w) v := by
  intro depth hdepth
  cases depth with
  | zero => exact absurd hdepth (Nat.not_lt_zero _)
  | succ depth =>
    rw [readValueWithin_succ]
    refine Reads.consU1 ?_
    rw [hletter]
    exact h depth (Nat.le_of_lt_succ hdepth)

theorem reads_entry {α : Type} {e : Pool.Index → Except Malformed α} {wrap : α → ElementValue}
    {index : Pool.Index} {a : α} (h : e index = .ok a) (hwrap : wrap a = v) :
    Reads (u2 >>= fun index => (liftM (e index) : Reader α) >>= fun a => pure (wrap a))
      (Bytes.u2 index) v :=
  hwrap ▸ (reads_u2 index).thenMap h

theorem integerAt_of_get {index : Pool.Index} {value : Int32}
    (h : pool.get index = .ok (.integer value)) : integerAt pool index = .ok value := by
  rw [integerAt, h]; rfl

end

/-- A list of named values, each with the bytes that it is read off. -/
def PairReads (pool : Pool) (w : Bytes) (pair : String × ElementValue) : Prop :=
  ∃ name v, w = Bytes.u2 name ++ v ∧ pool.utf8 name = .ok pair.1 ∧ ValueReads pool v pair.2

theorem reads_values {pool : Pool} {depth n : Nat} {ws : List Bytes} {values : List ElementValue}
    (h : List.Forall₂ (ValueReads pool) ws values)
    (hdepth : ∀ value ∈ values, value.depth < depth) (hn : n = values.length) :
    Reads (times n (readValueWithin pool depth)) ws.flatten values :=
  reads_times (List.forall₂_iff_get.mpr ⟨h.length_eq, fun i h₁ h₂ =>
    (List.forall₂_iff_get.mp h).2 i h₁ h₂ depth (hdepth _ (List.get_mem _ _))⟩) hn

theorem reads_readWith {pool : Pool} {depth : Nat} {index count : UInt16} {ws : List Bytes}
    {a : Annotation} (hdescriptor : pool.utf8 index = .ok a.descriptor)
    (hcount : count.toNat = a.values.length) (h : List.Forall₂ (PairReads pool) ws a.values)
    (hdepth : ∀ pair ∈ a.values, pair.2.depth < depth) :
    Reads (readWith pool (readValueWithin pool depth))
      (Bytes.u2 index ++ (Bytes.u2 count ++ ws.flatten)) a := by
  refine Reads.consIndex hdescriptor ((reads_u2 count).bind (Reads.map (reads_times ?_ hcount)))
  refine List.forall₂_iff_get.mpr ⟨h.length_eq, fun i h₁ h₂ => ?_⟩
  obtain ⟨name, v, hw, hname, hv⟩ := (List.forall₂_iff_get.mp h).2 i h₁ h₂
  rw [hw]
  exact Reads.consIndex hname (hv depth (hdepth _ (List.get_mem _ _))).map

mutual

/-- **A value that was written is read as it was.** -/
theorem yields_writeValue : ∀ value : ElementValue,
    Yields (writeValue value) fun linker w => ValueReads linker.toLinkage.pool w value
  | .byte value => by
    refine (Pool.yields_add _ (by simp)).lift.bind fun index => .pure fun linker _ h => ?_
    exact valueReads_of_letter 'B' rfl fun _ _ => reads_entry (integerAt_of_get h) (by simp)
  | .char unit => by
    refine (Pool.yields_add _ (by simp)).lift.bind fun index => .pure fun linker _ h => ?_
    exact valueReads_of_letter 'C' rfl fun _ _ => reads_entry (integerAt_of_get h) (by simp)
  | .int value => by
    refine (Pool.yields_add _ (by simp)).lift.bind fun index => .pure fun linker _ h => ?_
    exact valueReads_of_letter 'I' rfl fun _ _ => reads_entry (integerAt_of_get h) rfl
  | .short value => by
    refine (Pool.yields_add _ (by simp)).lift.bind fun index => .pure fun linker _ h => ?_
    exact valueReads_of_letter 'S' rfl fun _ _ => reads_entry (integerAt_of_get h) (by simp)
  | .boolean value => by
    refine (Pool.yields_add _ (by simp)).lift.bind fun index => .pure fun linker _ h => ?_
    exact valueReads_of_letter 'Z' rfl fun _ _ =>
      reads_entry (integerAt_of_get h) (by cases value <;> rfl)
  | .double bits => by
    refine (Pool.yields_add _ (by simp)).lift.bind fun index => .pure fun linker _ h => ?_
    refine valueReads_of_letter 'D' rfl fun _ _ => reads_entry (e := doubleAt _) ?_ rfl
    rw [doubleAt, Linker.toLinkage, h]; rfl
  | .float bits => by
    refine (Pool.yields_add _ (by simp)).lift.bind fun index => .pure fun linker _ h => ?_
    refine valueReads_of_letter 'F' rfl fun _ _ => reads_entry (e := floatAt _) ?_ rfl
    rw [floatAt, Linker.toLinkage, h]; rfl
  | .long value => by
    refine (Pool.yields_add _ (by simp)).lift.bind fun index => .pure fun linker _ h => ?_
    refine valueReads_of_letter 'J' rfl fun _ _ => reads_entry (e := longAt _) ?_ rfl
    rw [longAt, Linker.toLinkage, h]; rfl
  | .string value => by
    refine (Pool.yields_utf8 value).lift.bind fun index => .pure fun linker _ h => ?_
    exact valueReads_of_letter 's' rfl fun _ _ => reads_entry h rfl
  | .enum descriptor name => by
    refine (Pool.yields_utf8 descriptor).lift.bind fun first => ?_
    refine (Pool.yields_utf8 name).lift.bind fun second => .pure fun linker _ hsecond hfirst => ?_
    exact valueReads_of_letter 'e' rfl fun _ _ =>
      Reads.consIndex hfirst ((reads_u2 second).thenMap hsecond)
  | .classLiteral descriptor => by
    refine (Pool.yields_utf8 descriptor).lift.bind fun index => .pure fun linker _ h => ?_
    exact valueReads_of_letter 'c' rfl fun _ _ => reads_entry h rfl
  | .nested descriptor values => by
    refine (Pool.yields_utf8 descriptor).lift.bind fun index => ?_
    refine (Yields.count _ _).bind fun count => (yields_writePairs [] values).bind fun bytes => ?_
    refine .pure ?_
    rintro linker - ⟨ws, rfl, hws⟩ hcount hdescriptor
    have hbytes : tagged '@' index ++ Bytes.u2 count ++ ws.flatten =
        UInt8.ofNat '@'.toNat :: (Bytes.u2 index ++ (Bytes.u2 count ++ ws.flatten)) := by
      simp [tagged]
    rw [List.reverse_nil, List.nil_append, hbytes]
    refine valueReads_of_letter '@' rfl fun depth hdepth => ?_
    exact (reads_readWith (a := ⟨descriptor, values⟩) hdescriptor hcount hws fun pair hpair =>
      Nat.lt_of_lt_of_le (ElementValue.depth_lt_pairDepths hpair) hdepth).map
  | .array values => by
    refine (Yields.count _ _).bind fun count => (yields_writeValues [] values).bind fun bytes => ?_
    refine .pure ?_
    rintro linker - ⟨ws, rfl, hws⟩ hcount
    refine valueReads_of_letter '[' rfl fun depth hdepth => (reads_u2 count).bind ?_
    exact (reads_values hws (fun value hvalue =>
      Nat.lt_of_lt_of_le (ElementValue.depth_lt_depths hvalue) hdepth) hcount).map

theorem yields_writeValues (done : List Bytes) : ∀ values : List ElementValue,
    Yields (writeValues done values) fun linker w => ∃ ws, w = (done.reverse ++ ws).flatten ∧
      List.Forall₂ (ValueReads linker.toLinkage.pool) ws values
  | [] => .pure fun _ _ => ⟨[], by simp, .nil⟩
  | value :: rest => by
    refine (yields_writeValue value).bind fun bytes => ?_
    refine (yields_writeValues (bytes :: done) rest).mono ?_
    rintro linker w - ⟨ws, rfl, hws⟩ hvalue
    exact ⟨bytes :: ws, by simp, .cons hvalue hws⟩

theorem yields_writePairs (done : List Bytes) : ∀ values : List (String × ElementValue),
    Yields (writePairs done values) fun linker w => ∃ ws, w = (done.reverse ++ ws).flatten ∧
      List.Forall₂ (PairReads linker.toLinkage.pool) ws values
  | [] => .pure fun _ _ => ⟨[], by simp, .nil⟩
  | (name, value) :: rest => by
    refine (Pool.yields_utf8 name).lift.bind fun index => ?_
    refine (yields_writeValue value).bind fun bytes => ?_
    refine (yields_writePairs ((Bytes.u2 index ++ bytes) :: done) rest).mono ?_
    rintro linker w - ⟨ws, rfl, hws⟩ hvalue hname
    exact ⟨(Bytes.u2 index ++ bytes) :: ws, by simp, .cons ⟨index, bytes, rfl, hname, hvalue⟩ hws⟩

end

/-! ## Annotations -/

/-- **An annotation is read as it was written** wherever values may nest deeper
    than its values do. -/
theorem yields_writeOneWithin {a : Annotation} {depth : Nat}
    (hdepth : ∀ pair ∈ a.values, pair.2.depth < depth) :
    Yields (writeOne a) fun linker w =>
      Reads (readWith linker.toLinkage.pool (readValueWithin linker.toLinkage.pool depth)) w a := by
  refine (Pool.yields_utf8 a.descriptor).lift.bind fun index => ?_
  refine (Yields.count _ _).bind fun count => (yields_writePairs [] a.values).bind fun bytes => ?_
  refine .pure ?_
  rintro linker - ⟨ws, rfl, hws⟩ hcount hdescriptor
  rw [List.append_assoc]
  exact reads_readWith hdescriptor hcount hws hdepth

theorem yields_writeOne {a : Annotation} (hnests : a.Nests) :
    Yields (writeOne a) fun linker w => Reads (readOne linker.toLinkage.pool) w a :=
  yields_writeOneWithin fun pair hpair => Nat.lt_succ_of_le (hnests pair hpair)

theorem yields_writeList {annotations : List Annotation}
    (hnests : ∀ a ∈ annotations, a.Nests) :
    Yields (writeList annotations) fun linker w =>
      Reads (readList linker.toLinkage.pool) w annotations :=
  Yields.counted fun a ha => yields_writeOne (hnests a ha)

/-! ## Type annotations -/

/-- Where there is a layout there is a map of labels, which takes the offset of
    every label back to it. -/
def Recovers (layout : Option Layout) (labels : Option LabelMap) : Prop :=
  ∀ offsets ∈ layout, ∃ map ∈ labels, ∀ label offset,
    offsets.offset label = .ok offset → map.label offset.toNat = .ok label

theorem Recovers.none (labels : Option LabelMap) : Recovers none labels := nofun

theorem Recovers.some {layout : Layout} {starts : List Nat} {length : Nat}
    (h : layout.Ascends starts length) :
    Recovers layout (LabelMap.ofOffsets starts length) := by
  intro offsets hoffsets
  cases hoffsets
  exact ⟨_, rfl, fun label offset => h.label_of_offset⟩

theorem reads_range {layout : Layout} {labels : LabelMap}
    (hlabels : ∀ label offset, layout.offset label = .ok offset →
      labels.label offset.toNat = .ok label)
    {range : VariableRange} {w : Bytes} (h : writeRange layout range = .ok w) :
    Reads (readRange labels) w range := by
  obtain ⟨start, hstart, h⟩ := Result.bind_eq_ok.mp h
  obtain ⟨stop, hstop, h⟩ := Result.bind_eq_ok.mp h
  split at h
  next => exact nomatch h
  next hle =>
    cases h
    have hle := UInt16.le_iff_toNat_le.mp (UInt16.not_lt.mp hle)
    have hsub : start.toNat + (stop - start).toNat = stop.toNat := by
      rw [UInt16.toNat_sub_of_le _ _ (UInt16.le_iff_toNat_le.mpr hle)]; omega
    have hstopLabel := hlabels _ _ hstop
    rw [← hsub] at hstopLabel
    rw [List.append_assoc]
    refine (reads_u2 start).bind ((reads_u2 (stop - start)).bind ?_)
    exact Reads.lift (hlabels _ _ hstart)
      (Reads.lift hstopLabel (reads_u2 range.index).map)

theorem offset_tags : ∀ type : UInt8, 0x43 ≤ type ∧ type ≤ 0x46 →
    type = 0x43 ∨ type = 0x44 ∨ type = 0x45 ∨ type = 0x46 := by
  decide +kernel

theorem typeArgument_tags : ∀ type : UInt8, 0x47 ≤ type ∧ type ≤ 0x4B →
    type = 0x47 ∨ type = 0x48 ∨ type = 0x49 ∨ type = 0x4A ∨ type = 0x4B := by
  decide +kernel

theorem empty_tags : ∀ type : UInt8, 0x13 ≤ type ∧ type ≤ 0x15 →
    type = 0x13 ∨ type = 0x14 ∨ type = 0x15 := by
  decide +kernel

theorem needLayout_eq_ok {layout : Option Layout} {offsets : Layout} :
    needLayout layout = .ok offsets ↔ offsets ∈ layout := by
  cases layout with
  | none => exact ⟨nofun, nofun⟩
  | some found => exact ⟨fun h => by cases h; rfl, fun h => by cases h; rfl⟩

/-- **The target of a type annotation is read as it was written**, if its tag
    is one of its shape. -/
theorem reads_target {layout : Option Layout} {labels : Option LabelMap}
    (hlabels : Recovers layout labels) {target : TypeAnnotation.Target}
    (htagged : target.Tagged) {w : Bytes} (h : writeTarget layout target = .ok w) :
    Reads (readTarget labels) w target := by
  cases target with
  | typeParameter type index =>
    cases h
    refine Reads.consU1 ?_
    rw [if_pos (show type ≤ 0x01 from htagged)]
    exact (reads_u1 index).map
  | supertype index => cases h; exact Reads.consU1 (reads_u2 index).map
  | bound type parameter bound =>
    cases h
    rcases htagged with rfl | rfl <;>
    exact Reads.consU1 (Reads.consU1 (reads_u1 bound).map)
  | empty type =>
    cases h
    rcases empty_tags type htagged with rfl | rfl | rfl <;>
    exact Reads.consU1 Reads.pure
  | formalParameter index => cases h; exact Reads.consU1 (reads_u1 index).map
  | throws index => cases h; exact Reads.consU1 (reads_u2 index).map
  | localVariable type ranges =>
    obtain ⟨offsets, hneed, h⟩ := Result.bind_eq_ok.mp h
    obtain ⟨map, rfl, hmap⟩ := hlabels offsets (needLayout_eq_ok.mp hneed)
    obtain ⟨count, hcount, h⟩ := Result.bind_eq_ok.mp h
    obtain ⟨ws, hws, h⟩ := Result.bind_eq_ok.mp h
    cases h
    have hranges := reads_times ((Result.mapM_eq_ok.mp hws).flip.imp
      fun _ _ h => reads_range hmap h) (Linking.toNat_of_count hcount)
    rcases htagged with rfl | rfl <;>
    exact Reads.consU1 (Reads.lift rfl ((reads_u2 count).bind hranges.map))
  | «catch» index => cases h; exact Reads.consU1 (reads_u2 index).map
  | offset type label =>
    obtain ⟨offsets, hneed, h⟩ := Result.bind_eq_ok.mp h
    obtain ⟨map, rfl, hmap⟩ := hlabels offsets (needLayout_eq_ok.mp hneed)
    obtain ⟨offset, hoffset, h⟩ := Result.bind_eq_ok.mp h
    cases h
    have hread := (reads_u2 offset).thenMap (g := TypeAnnotation.Target.offset type)
      (e := fun offset => map.label offset.toNat) (hmap _ _ hoffset)
    rcases offset_tags type htagged with rfl | rfl | rfl | rfl <;>
    exact Reads.consU1 (Reads.lift rfl hread)
  | typeArgument type label index =>
    obtain ⟨offsets, hneed, h⟩ := Result.bind_eq_ok.mp h
    obtain ⟨map, rfl, hmap⟩ := hlabels offsets (needLayout_eq_ok.mp hneed)
    obtain ⟨offset, hoffset, h⟩ := Result.bind_eq_ok.mp h
    cases h
    have hread := Reads.consIndex (e := fun offset => map.label offset.toNat)
      (f := fun label => u1 >>= fun index =>
        (return .typeArgument type label index : Reader TypeAnnotation.Target))
      (hmap _ _ hoffset) (reads_u1 index).map
    rcases typeArgument_tags type htagged with rfl | rfl | rfl | rfl | rfl <;>
    exact Reads.consU1 (Reads.lift rfl hread)

/-- Read a type annotation, whose annotation `content` reads. -/
def readTypeWith (labels : Option LabelMap) (content : Reader Annotation) :
    Reader TypeAnnotation := do
  let target ← readTarget labels
  let path ← times (← u1).toNat do return TypePathEntry.mk (← u1) (← u1)
  return ⟨target, path, ← content⟩

/-- A type annotation is read as it was written wherever its annotation is. -/
theorem yields_writeTypeWith {layout : Option Layout} {labels : Option LabelMap}
    (hlabels : Recovers layout labels) {a : TypeAnnotation} (htagged : a.target.Tagged)
    {content : Linker → Reader Annotation}
    (hcontent : Yields (writeOne a.content) fun linker w => Reads (content linker) w a.content) :
    Yields (writeOneType layout a) fun linker w =>
      Reads (readTypeWith labels (content linker)) w a := by
  refine Yields.bindOk fun target htarget => Yields.guard fun hpath => ?_
  refine hcontent.bind fun content => .pure fun linker _ hcontent => ?_
  have hcount : (UInt8.ofNat a.path.length).toNat = a.path.length := by
    rw [UInt8.toNat_ofNat']; omega
  have hentries : Reads (times a.path.length do return TypePathEntry.mk (← u1) (← u1))
      (a.path.flatMap fun entry => [entry.kind, entry.argumentIndex]) a.path := by
    rw [List.flatMap_def]
    refine reads_times ?_ rfl
    rw [List.forall₂_map_left_iff, List.forall₂_same]
    exact fun entry _ => Reads.consU1 (reads_u1 entry.argumentIndex).map
  rw [List.append_assoc, List.cons_append]
  refine (reads_target hlabels htagged htarget).bind (Reads.consU1 ?_)
  rw [hcount]
  exact hentries.bind hcontent.map

theorem yields_writeOneType {layout : Option Layout} {labels : Option LabelMap}
    (hlabels : Recovers layout labels) {a : TypeAnnotation} (hreadable : a.Readable) :
    Yields (writeOneType layout a) fun linker w =>
      Reads (readOneType linker.toLinkage.pool labels) w a :=
  yields_writeTypeWith hlabels hreadable.tagged (yields_writeOne hreadable.nests)

/-- **Type annotations that were written are read as they were.** -/
theorem yields_writeTypeList {layout : Option Layout} {labels : Option LabelMap}
    (hlabels : Recovers layout labels) {annotations : List TypeAnnotation}
    (hreadable : ∀ a ∈ annotations, a.Readable) :
    Yields (writeTypeList layout annotations) fun linker w =>
      Reads (readTypeList linker.toLinkage.pool labels) w annotations :=
  Yields.counted fun a ha => yields_writeOneType hlabels (hreadable a ha)

end Annotations

end JvmClass
