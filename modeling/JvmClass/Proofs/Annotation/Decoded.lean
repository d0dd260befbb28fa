/-
  What is known of annotations that were read.

  * `ElementValue.Countable` and `Annotation.Countable`: the values in a value
    or an annotation can be counted;
  * `TypeAnnotation.Target.Within`: the instructions that a target refers to
    lie in a method body, and only a target in one refers to instructions;
  * `produces_readValue`, `produces_readList` and `produces_readTypeList`: so
    much is known of whatever is read.
-/
import JvmClass.Proofs.Annotation.Binary
import JvmClass.Proofs.Bytes.Produces

namespace JvmClass

namespace ElementValue

mutual

/-- The values in a value can be counted. -/
def Countable : ElementValue → Prop
  | nested _ values => values.length ≤ 0xFFFF ∧ PairsCountable values
  | array values => values.length ≤ 0xFFFF ∧ AllCountable values
  | _ => True

/-- The values in the values of a list can be counted. -/
def AllCountable : List ElementValue → Prop
  | [] => True
  | value :: rest => value.Countable ∧ AllCountable rest

/-- The values in the values of a list of named ones can be counted. -/
def PairsCountable : List (String × ElementValue) → Prop
  | [] => True
  | (_, value) :: rest => value.Countable ∧ PairsCountable rest

end

theorem allCountable_iff {values : List ElementValue} :
    AllCountable values ↔ ∀ value ∈ values, value.Countable := by
  induction values with
  | nil => exact ⟨fun _ => nofun, fun _ => trivial⟩
  | cons value values ih => rw [AllCountable, ih, List.forall_mem_cons]

theorem pairsCountable_iff {values : List (String × ElementValue)} :
    PairsCountable values ↔ ∀ pair ∈ values, pair.2.Countable := by
  induction values with
  | nil => exact ⟨fun _ => nofun, fun _ => trivial⟩
  | cons pair values ih => rw [PairsCountable, ih, List.forall_mem_cons]

theorem depths_le {values : List ElementValue} {n : Nat}
    (h : ∀ value ∈ values, value.depth < n) : depths values ≤ n := by
  induction values with
  | nil => exact Nat.zero_le n
  | cons value values ih =>
    rw [List.forall_mem_cons] at h
    exact Nat.max_le.mpr ⟨h.1, ih h.2⟩

theorem pairDepths_le {values : List (String × ElementValue)} {n : Nat}
    (h : ∀ pair ∈ values, pair.2.depth < n) : pairDepths values ≤ n := by
  induction values with
  | nil => exact Nat.zero_le n
  | cons pair values ih =>
    rw [List.forall_mem_cons] at h
    exact Nat.max_le.mpr ⟨h.1, ih h.2⟩

end ElementValue

/-- The values of an annotation can be counted. -/
structure Annotation.Countable (a : Annotation) : Prop where
  count : a.values.length ≤ 0xFFFF
  values : ∀ pair ∈ a.values, pair.2.Countable

/-- The instructions that a target refers to lie in a method body of `count`
    instructions; there are none outside method bodies. -/
def TypeAnnotation.Target.Within (count : Option Nat) : TypeAnnotation.Target → Prop
  | localVariable _ ranges => ∃ n ∈ count, ranges.length ≤ 0xFFFF ∧
    ∀ range ∈ ranges, range.start ≤ range.stop ∧ range.stop ≤ n
  | offset _ label | typeArgument _ label _ => ∃ n ∈ count, label ≤ n
  | _ => True

/-- A type annotation refers to instructions that there are, and its parts can
    be counted. -/
structure TypeAnnotation.Within (count : Option Nat) (a : TypeAnnotation) : Prop where
  target : a.target.Within count
  path : a.path.length ≤ 0xFF
  content : a.content.Countable

namespace Annotations

open Reader

variable {pool : Pool}

/-- What is known of values is known of those in an annotation. -/
theorem produces_readWith {value : Reader ElementValue} {P : ElementValue → Prop}
    (hvalue : Produces value P) :
    Produces (readWith pool value) fun a =>
      a.values.length ≤ 0xFFFF ∧ ∀ pair ∈ a.values, P pair.2 := by
  have hpair : Produces (do
      let name ← pool.utf8 (← u2)
      return (name, ← value)) fun pair => P pair.2 :=
    .after fun _ => .after fun _ => hvalue.bind fun _ h => .pure h
  refine .after fun _ => .after fun _ => .after fun count => ?_
  refine (hpair.times _).bind fun values h => .pure ⟨?_, h.2⟩
  exact h.1 ▸ word_le count

/-- What is known of a value that nests less than `depth` deep. -/
theorem produces_readValueWithin (depth : Nat) :
    Produces (readValueWithin pool depth) fun value => value.Countable ∧ value.depth < depth := by
  induction depth with
  | zero => exact .throw
  | succ depth ih =>
    rw [readValueWithin_succ]
    refine .after fun tag => ?_
    unfold valueOperands
    split
    -- an enumeration constant, an annotation, an array, the tags of no value,
    -- and everything else, which is one entry of the pool
    case h_10 =>
      exact .after fun _ => .after fun _ => .after fun _ => .after fun _ =>
        .pure ⟨trivial, Nat.succ_pos depth⟩
    case h_12 =>
      refine (produces_readWith ih).bind fun a h => .pure ⟨⟨h.1, ?_⟩, ?_⟩
      · exact ElementValue.pairsCountable_iff.mpr fun pair hpair => (h.2 pair hpair).1
      · exact Nat.lt_succ_of_le (ElementValue.pairDepths_le fun pair hpair => (h.2 pair hpair).2)
    case h_13 =>
      refine .after fun count => (ih.times _).bind fun values h => .pure ⟨⟨?_, ?_⟩, ?_⟩
      · exact h.1 ▸ word_le count
      · exact ElementValue.allCountable_iff.mpr fun value hvalue => (h.2 value hvalue).1
      · exact Nat.lt_succ_of_le (ElementValue.depths_le fun value hvalue => (h.2 value hvalue).2)
    case h_14 => exact .throw
    all_goals exact .after fun _ => .after fun _ => .pure ⟨trivial, Nat.succ_pos depth⟩

theorem produces_readValue :
    Produces (readValue pool) fun value => value.Countable ∧ value.depth ≤ maxNesting :=
  (produces_readValueWithin _).mono fun _ h => ⟨h.1, Nat.le_of_lt_succ h.2⟩

theorem produces_readOne : Produces (readOne pool) fun a => a.Countable ∧ a.Nests :=
  (produces_readWith produces_readValue).mono fun _ h =>
    ⟨⟨h.1, fun pair hpair => (h.2 pair hpair).1⟩, fun pair hpair => (h.2 pair hpair).2⟩

theorem produces_readList :
    Produces (readList pool) fun list =>
      list.length ≤ 0xFFFF ∧ ∀ a ∈ list, a.Countable ∧ a.Nests :=
  produces_readOne.counted

/-! ## Type annotations -/

/-- The map of labels, if there is one, is that of a method body of `count`
    instructions, if there is one. -/
inductive LabelsOf : Option LabelMap → Option Nat → Prop where
  | none : LabelsOf none none
  | some {labels : LabelMap} {count : Nat} (h : labels.Ascends count) :
      LabelsOf (some labels) (some count)

theorem produces_readRange {labels : LabelMap} {count : Nat} (hlabels : labels.Ascends count) :
    Produces (readRange labels) fun range => range.start ≤ range.stop ∧ range.stop ≤ count := by
  refine .after fun start => .after fun length => .lift fun first hfirst => ?_
  refine .lift fun last hlast => .after fun index => .pure ?_
  rw [LabelMap.label_eq_ok] at hfirst hlast
  exact ⟨hlabels.le_of_le hfirst hlast (Nat.le_add_right ..), hlabels.label_le hlast⟩

theorem produces_readTarget {labels : Option LabelMap} {count : Option Nat}
    (hlabels : LabelsOf labels count) :
    Produces (readTarget labels) fun target => target.Tagged ∧ target.Within count := by
  have hneed : ∀ {type map}, needLabels labels type = .ok map →
      ∃ n ∈ count, map.Ascends n := by
    intro type map h
    cases hlabels with
    | none => exact nomatch h
    | some hascends => cases h; exact ⟨_, rfl, hascends⟩
  have hlabel : ∀ {map : LabelMap} {offset label : Nat}, (∃ n ∈ count, map.Ascends n) →
      map.label offset = .ok label → ∃ n ∈ count, label ≤ n := by
    rintro map offset label ⟨n, hn, hascends⟩ h
    exact ⟨n, hn, hascends.label_le (LabelMap.label_eq_ok.mp h)⟩
  refine .after fun type => .ite (fun h => ?_) fun _ => .ite (fun _ => ?_) fun _ => ?_
  · exact .after fun _ => .pure ⟨h, trivial⟩
  · exact .after fun _ => .pure ⟨trivial, trivial⟩
  refine .ite (fun h => ?_) fun _ => .ite (fun h => ?_) fun _ => .ite (fun _ => ?_) fun _ => ?_
  · exact .after fun _ => .after fun _ => .pure ⟨h, trivial⟩
  · exact .pure ⟨h, trivial⟩
  · exact .after fun _ => .pure ⟨trivial, trivial⟩
  refine .ite (fun _ => ?_) fun _ => .ite (fun h => ?_) fun _ => .ite (fun _ => ?_) fun _ => ?_
  · exact .after fun _ => .pure ⟨trivial, trivial⟩
  · refine .lift fun map hmap => .after fun length => ?_
    obtain ⟨n, hn, hascends⟩ := hneed hmap
    refine ((produces_readRange hascends).times _).bind fun ranges hranges => .pure ⟨h, n, hn, ?_⟩
    exact ⟨hranges.1 ▸ word_le length, hranges.2⟩
  · exact .after fun _ => .pure ⟨trivial, trivial⟩
  refine .ite (fun h => ?_) fun _ => .ite (fun h => ?_) fun _ => .throw
  · exact .lift fun map hmap => .after fun _ => .lift fun label hoffset =>
      .pure ⟨h, hlabel (hneed hmap) hoffset⟩
  · exact .lift fun map hmap => .after fun _ => .lift fun label hoffset => .after fun _ =>
      .pure ⟨h, hlabel (hneed hmap) hoffset⟩

theorem produces_readTypeList {labels : Option LabelMap} {count : Option Nat}
    (hlabels : LabelsOf labels count) :
    Produces (readTypeList pool labels) fun list =>
      list.length ≤ 0xFFFF ∧ ∀ a ∈ list, a.Readable ∧ a.Within count := by
  refine Produces.counted ((produces_readTarget hlabels).bind fun target htarget => ?_)
  refine .after fun length => (Produces.any.times _).bind fun path hpath => ?_
  refine produces_readOne.bind fun a ha => .pure ⟨⟨htarget.1, ha.2⟩, htarget.2, ?_, ha.1⟩
  exact hpath.1 ▸ byte_le length

end Annotations

end JvmClass
