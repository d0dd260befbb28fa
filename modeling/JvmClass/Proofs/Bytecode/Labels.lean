/-
  Labels and offsets are two names of the same places.

  * `LabelMap.label?_ofOffsets`: where offsets ascend to the length of the
    code, the map has a label exactly at these offsets;
  * `LabelMap.instruction_ofOffsets` says the same of the instructions alone;
  * `Layout.Ascends` and `Layout.labelMap`: the offsets of a layout and their
    map.
-/
import JvmClass.Bytecode.Labels
import JvmClass.Proofs.Result
import Mathlib.Data.List.Basic

namespace JvmClass

/-! ## Ascending offsets -/

section
variable {offsets : List Nat} {i j a b : Nat}

theorem lt_iff_of_ascending (h : offsets.Pairwise (· < ·)) (hi : offsets[i]? = some a)
    (hj : offsets[j]? = some b) : a < b ↔ i < j := by
  obtain ⟨hi', rfl⟩ := List.getElem?_eq_some_iff.mp hi
  obtain ⟨hj', rfl⟩ := List.getElem?_eq_some_iff.mp hj
  rw [List.pairwise_iff_getElem] at h
  constructor
  · intro hlt
    rcases Nat.lt_trichotomy i j with hij | rfl | hji
    · exact hij
    · exact absurd hlt (Nat.lt_irrefl _)
    · exact absurd (h j i hj' hi' hji) (Nat.not_lt.mpr (Nat.le_of_lt hlt))
  · exact h i j hi' hj'

theorem eq_of_ascending (h : offsets.Pairwise (· < ·)) (hi : offsets[i]? = some a)
    (hj : offsets[j]? = some a) : i = j := by
  have hij := lt_iff_of_ascending h hi hj
  have hji := lt_iff_of_ascending h hj hi
  omega

end

namespace LabelMap

/-! ## The map of a list of offsets -/

section
variable {starts : List Nat} {length offset label : Nat}

/-- The marks that `ofOffsets` makes for the labels from `first` on. -/
private abbrev mark (starts : List Nat) (first : Nat) (labels : Array (Option Label)) :
    Array (Option Label) :=
  (starts.zipIdx first).foldl (fun labels (offset, label) => labels.setIfInBounds offset
    (some label)) labels

private theorem size_mark (starts : List Nat) (first : Nat) (labels : Array (Option Label)) :
    (mark starts first labels).size = labels.size := by
  induction starts generalizing first labels with
  | nil => rfl
  | cons start starts ih =>
    rw [mark, List.zipIdx_cons, List.foldl_cons]
    exact (ih _ _).trans (by simp)

private theorem mark_of_notMem (h : offset ∉ starts) (first : Nat)
    (labels : Array (Option Label)) : (mark starts first labels)[offset]? = labels[offset]? := by
  induction starts generalizing first labels with
  | nil => rfl
  | cons start starts ih =>
    rw [List.mem_cons, not_or] at h
    rw [mark, List.zipIdx_cons, List.foldl_cons]
    refine (ih h.2 _ _).trans ?_
    rw [Array.getElem?_setIfInBounds, if_neg (fun heq => h.1 heq.symm)]

private theorem mark_of_getElem? (hnodup : starts.Nodup) (h : starts[label]? = some offset)
    (first : Nat) {labels : Array (Option Label)} (hlt : offset < labels.size) :
    (mark starts first labels)[offset]? = some (some (label + first)) := by
  induction starts generalizing first label labels with
  | nil => simp at h
  | cons start starts ih =>
    rw [List.nodup_cons] at hnodup
    rw [mark, List.zipIdx_cons, List.foldl_cons]
    cases label with
    | zero =>
      obtain rfl : start = offset := by simpa using h
      refine (mark_of_notMem hnodup.1 _ _).trans ?_
      simp [hlt]
    | succ label =>
      refine (ih hnodup.2 (by simpa using h) (first + 1) (by simpa using hlt)).trans ?_
      simp only [Option.some.injEq]; omega

/-- Where the code does not end only the instructions count. -/
theorem getElem?_append_stop (h : length ≠ offset) :
    (starts ++ [length])[label]? = some offset ↔ starts[label]? = some offset := by
  rcases Nat.lt_or_ge label starts.length with hlt | hge
  · rw [List.getElem?_append_left hlt]
  · rw [List.getElem?_append_right hge, List.getElem?_eq_none hge]
    refine ⟨fun hlabel => ?_, nofun⟩
    exact absurd (List.mem_singleton.mp (List.mem_of_getElem? hlabel)).symm h

/-- Where offsets ascend to the length of the code, the map has a label
    exactly at these offsets. -/
theorem label?_ofOffsets (h : (starts ++ [length]).Pairwise (· < ·)) :
    (ofOffsets starts length).label? offset = some label ↔
      (starts ++ [length])[label]? = some offset := by
  have hbelow : ∀ start ∈ starts, start < length :=
    fun start hstart => (List.pairwise_append.mp h).2.2 start hstart length (by simp)
  have hnodup : starts.Nodup := (List.pairwise_append.mp h).1.imp Nat.ne_of_lt
  have hmap : (ofOffsets starts length).labels =
      (mark starts 0 (Array.replicate (length + 1) none)).setIfInBounds length
        (some starts.length) := rfl
  have hsize : (mark starts 0 (Array.replicate (length + 1) none)).size = length + 1 := by
    rw [size_mark, Array.size_replicate]
  rw [label?, hmap, Array.getElem?_setIfInBounds, hsize]
  by_cases hlength : length = offset
  · -- the end of the code
    subst hlength
    have hlast : (starts ++ [length])[starts.length]? = some length := by simp
    simp only [if_true, Nat.lt_succ_self, Option.join_some, Option.some.injEq]
    exact ⟨fun heq => heq ▸ hlast, fun hlabel => eq_of_ascending h hlast hlabel⟩
  · rw [if_neg hlength]
    rw [getElem?_append_stop hlength]
    by_cases hmem : offset ∈ starts
    · obtain ⟨i, hi, hoffset⟩ := List.getElem_of_mem hmem
      have hi' : starts[i]? = some offset := by rw [List.getElem?_eq_getElem hi, hoffset]
      have hlt := hbelow offset hmem
      rw [mark_of_getElem? hnodup hi' 0 (by simp; omega)]
      simp only [Nat.add_zero, Option.join_some, Option.some.injEq]
      constructor
      · rintro rfl; exact hi'
      · intro hlabel
        exact eq_of_ascending (List.pairwise_append.mp h).1 hi' hlabel
    · rw [mark_of_notMem hmem]
      constructor
      · intro hnone
        rw [Array.getElem?_replicate] at hnone
        split at hnone <;> simp at hnone
      · intro hlabel; exact absurd (List.mem_of_getElem? hlabel) hmem

theorem label_ofOffsets (h : (starts ++ [length]).Pairwise (· < ·)) :
    (ofOffsets starts length).label offset = .ok label ↔
      (starts ++ [length])[label]? = some offset := by
  rw [← label?_ofOffsets h, LabelMap.label]
  cases (ofOffsets starts length).label? offset <;> simp

theorem instruction_ofOffsets (h : (starts ++ [length]).Pairwise (· < ·)) :
    (ofOffsets starts length).instruction offset = .ok label ↔ starts[label]? = some offset := by
  have hsize : (ofOffsets starts length).labels.size = length + 1 := by
    simp [ofOffsets, size_mark]
  rw [instruction, hsize]
  split
  next hge =>
    refine ⟨nofun, fun hstart => ?_⟩
    have := (List.pairwise_append.mp h).2.2 offset (List.mem_of_getElem? hstart) length (by simp)
    omega
  next hlt =>
    rw [label_ofOffsets h, getElem?_append_stop (by omega)]

end

/-! ## Maps of ascending offsets -/

/-- The labels of a method body with `count` instructions, which ascend as
    their offsets do. -/
structure Ascends (labels : LabelMap) (count : Nat) : Prop where
  label_le : ∀ {offset label}, labels.label? offset = some label → label ≤ count
  instruction_lt : ∀ {offset label}, labels.instruction offset = .ok label → label < count
  lt_iff : ∀ {a b i j}, labels.label? a = some i → labels.label? b = some j → (a < b ↔ i < j)

section
variable {labels : LabelMap} {offset label count : Nat}

theorem label_eq_ok : labels.label offset = .ok label ↔ labels.label? offset = some label := by
  rw [LabelMap.label]
  cases labels.label? offset <;> simp

theorem label?_of_instruction (h : labels.instruction offset = .ok label) :
    labels.label? offset = some label := by
  unfold instruction at h
  split at h
  next => exact nomatch h
  next => exact label_eq_ok.mp h

theorem Ascends.le_of_le (h : labels.Ascends count) {a b i j : Nat}
    (hi : labels.label? a = some i) (hj : labels.label? b = some j) (hle : a ≤ b) : i ≤ j := by
  refine Nat.le_of_not_lt fun hlt => ?_
  exact absurd ((h.lt_iff hj hi).mpr hlt) (Nat.not_lt.mpr hle)

theorem ascends_ofOffsets {starts : List Nat} {length : Nat}
    (h : (starts ++ [length]).Pairwise (· < ·)) :
    (ofOffsets starts length).Ascends starts.length where
  label_le hlabel := by
    have hlt := (List.getElem?_eq_some_iff.mp ((label?_ofOffsets h).mp hlabel)).1
    rw [List.length_append, List.length_singleton] at hlt
    exact Nat.le_of_lt_succ hlt
  instruction_lt hlabel := (List.getElem?_eq_some_iff.mp ((instruction_ofOffsets h).mp hlabel)).1
  lt_iff hi hj := lt_iff_of_ascending h ((label?_ofOffsets h).mp hi) ((label?_ofOffsets h).mp hj)

end

end LabelMap

end JvmClass
