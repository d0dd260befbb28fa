/-
  Laying out instructions.

  * `Layout.Ascends`: the offsets of a layout ascend to the length of the
    code, which fits 16 bits; `ascends_layout` says so of every layout;
  * `label_of_offset` and `instruction_of_lt` take the offset of a label back
    to it.
-/
import JvmClass.Bytecode.Writing
import JvmClass.Proofs.Bytecode.Labels
import JvmClass.Proofs.Linkage.Growing

namespace JvmClass

namespace Layout

/-- Where a label lies. -/
def place (layout : Layout) (label : Label) : Nat := layout.offsets[label]?.getD 0

/-- The offsets are `starts` and then the length of the code. -/
structure Ascends (layout : Layout) (starts : List Nat) (length : Nat) : Prop where
  toList : layout.offsets.toList = starts ++ [length]
  ascending : (starts ++ [length]).Pairwise (· < ·)
  le : length ≤ Bytecode.maxLength

namespace Ascends

variable {layout : Layout} {starts : List Nat} {length : Nat}

theorem count_eq (h : layout.Ascends starts length) : layout.count = starts.length := by
  have := congrArg List.length h.toList
  simp only [Array.length_toList, List.length_append, List.length_singleton] at this
  rw [count, this, Nat.add_sub_cancel]

theorem getElem? (h : layout.Ascends starts length) (label : Label) :
    layout.offsets[label]? = (starts ++ [length])[label]? := by
  rw [← Array.getElem?_toList, h.toList]

theorem place_le (h : layout.Ascends starts length) (label : Label) :
    layout.place label ≤ length := by
  rw [place, h.getElem?]
  cases hlabel : (starts ++ [length])[label]? with
  | none => exact Nat.zero_le _
  | some offset =>
    rcases List.mem_append.mp (List.mem_of_getElem? hlabel) with hstart | hstop
    · exact Nat.le_of_lt ((List.pairwise_append.mp h.ascending).2.2 _ hstart length (by simp))
    · exact Nat.le_of_eq (List.mem_singleton.mp hstop)

theorem toNat_of_offset (h : layout.Ascends starts length) {label : Label} {offset : UInt16}
    (hoffset : layout.offset label = .ok offset) :
    (starts ++ [length])[label]? = some offset.toNat := by
  rw [Layout.offset, h.getElem?] at hoffset
  split at hoffset
  next place hplace =>
    have hle := h.place_le label
    rw [Layout.place, h.getElem?, hplace, Option.getD_some] at hle
    have hmax := h.le
    simp only [Bytecode.maxLength] at hmax
    rw [Result.pure_eq_ok] at hoffset
    rw [hplace, ← hoffset, UInt16.toNat_ofNat', Option.some.injEq]
    omega
  next => exact nomatch hoffset

theorem label_of_offset (h : layout.Ascends starts length) {label : Label} {offset : UInt16}
    (hoffset : layout.offset label = .ok offset) :
    (LabelMap.ofOffsets starts length).label offset.toNat = .ok label :=
  (LabelMap.label_ofOffsets h.ascending).mpr (h.toNat_of_offset hoffset)

theorem label?_of_offset (h : layout.Ascends starts length) {label : Label} {offset : UInt16}
    (hoffset : layout.offset label = .ok offset) :
    (LabelMap.ofOffsets starts length).label? offset.toNat = some label :=
  (LabelMap.label?_ofOffsets h.ascending).mpr (h.toNat_of_offset hoffset)

theorem place_of_lt (h : layout.Ascends starts length) {label : Label}
    (hlabel : label < starts.length) : starts[label]? = some (layout.place label) := by
  rw [place, h.getElem?, List.getElem?_append_left hlabel, List.getElem?_eq_getElem hlabel]
  rfl

theorem instruction_of_lt (h : layout.Ascends starts length) {label : Label}
    (hlabel : label < starts.length) :
    (LabelMap.ofOffsets starts length).instruction (layout.place label) = .ok label :=
  (LabelMap.instruction_ofOffsets h.ascending).mpr (h.place_of_lt hlabel)

theorem instruction_of_offset (h : layout.Ascends starts length) {label : Label}
    {offset : UInt16} (hlabel : label < starts.length)
    (hoffset : layout.offset label = .ok offset) :
    (LabelMap.ofOffsets starts length).instruction offset.toNat = .ok label := by
  have hplace := h.toNat_of_offset hoffset
  rw [List.getElem?_append_left hlabel] at hplace
  exact (LabelMap.instruction_ofOffsets h.ascending).mpr hplace

theorem offset_of_le (h : layout.Ascends starts length) {label : Label}
    (hlabel : label ≤ starts.length) : ∃ offset, layout.offset label = .ok offset := by
  have hlt : label < (starts ++ [length]).length := by
    rw [List.length_append, List.length_singleton]
    exact Nat.lt_succ_of_le hlabel
  refine ⟨UInt16.ofNat (starts ++ [length])[label], ?_⟩
  rw [Layout.offset, h.getElem?, List.getElem?_eq_getElem hlt]
  rfl

theorem place_lt (h : layout.Ascends starts length) {first second : Label}
    (hlt : first < second) (hsecond : second < starts.length) :
    layout.place first < layout.place second := by
  have hascending := (List.pairwise_append.mp h.ascending).1
  have hfirst := Nat.lt_trans hlt hsecond
  exact (lt_iff_of_ascending hascending (h.place_of_lt hfirst) (h.place_of_lt hsecond)).mpr hlt

theorem lt_iff (h : layout.Ascends starts length) {first second : Label} {a b : UInt16}
    (ha : layout.offset first = .ok a) (hb : layout.offset second = .ok b) :
    a < b ↔ first < second := by
  rw [UInt16.lt_iff_toNat_lt]
  exact lt_iff_of_ascending h.ascending (h.toNat_of_offset ha) (h.toNat_of_offset hb)

end Ascends

end Layout

namespace Bytecode

/-- Instructions with the indices of the pool entries that they refer to. -/
abbrev Placed := List (Instruction × UInt16)

/-- The offsets that instructions have from `offset` on. -/
def startsFrom : (offset : Nat) → Placed → List Nat
  | _, [] => []
  | offset, (i, operand) :: rest => offset :: startsFrom (offset + size operand offset i) rest

/-- Where instructions end that start at `offset`. -/
def stopFrom : (offset : Nat) → Placed → Nat
  | offset, [] => offset
  | offset, (i, operand) :: rest => stopFrom (offset + size operand offset i) rest

@[simp] theorem length_startsFrom (offset : Nat) (placed : Placed) :
    (startsFrom offset placed).length = placed.length := by
  induction placed generalizing offset with
  | nil => rfl
  | cons p placed ih => simp [startsFrom, ih]

theorem size_pos (operand : UInt16) (offset : Nat) (i : Instruction) :
    0 < size operand offset i := by
  cases i <;> simp only [size] <;> (try split) <;> (try split) <;> (try split) <;> omega

theorem le_stopFrom (offset : Nat) (placed : Placed) : offset ≤ stopFrom offset placed := by
  induction placed generalizing offset with
  | nil => exact Nat.le_refl _
  | cons p placed ih => exact Nat.le_trans (Nat.le_add_right ..) (ih _)

theorem ascending_startsFrom (offset : Nat) (placed : Placed) :
    (startsFrom offset placed ++ [stopFrom offset placed]).Pairwise (· < ·) ∧
      ∀ place ∈ startsFrom offset placed ++ [stopFrom offset placed], offset ≤ place := by
  induction placed generalizing offset with
  | nil => simp [startsFrom, stopFrom]
  | cons p placed ih =>
    obtain ⟨i, operand⟩ := p
    obtain ⟨hascending, hle⟩ := ih (offset + size operand offset i)
    have hpos := size_pos operand offset i
    refine ⟨.cons (fun place hplace => ?_) hascending, fun place hplace => ?_⟩
    · have := hle place hplace; omega
    · rcases List.mem_cons.mp hplace with rfl | hplace
      · exact Nat.le_refl _
      · have := hle place hplace; omega

theorem toList_layoutFrom {done : Array Nat} {offset : Nat} {placed : Placed} {layout : Layout}
    (h : layoutFrom done offset placed = .ok layout) :
    layout.offsets.toList =
        done.toList ++ (startsFrom offset placed ++ [stopFrom offset placed]) ∧
      (offset ≤ maxLength → stopFrom offset placed ≤ maxLength) := by
  induction placed generalizing done offset with
  | nil => cases h; simp [startsFrom, stopFrom]
  | cons p placed ih =>
    obtain ⟨i, operand⟩ := p
    simp only [layoutFrom] at h
    split at h
    next => exact nomatch h
    next hle =>
      obtain ⟨htoList, hstop⟩ := ih h
      exact ⟨by simp [htoList, startsFrom, stopFrom], fun _ => hstop (by omega)⟩

/-- **Offsets ascend** in every layout. -/
theorem ascends_layout {placed : Placed} {layout : Layout}
    (h : Bytecode.layout placed = .ok layout) :
    layout.Ascends (startsFrom 0 placed) (stopFrom 0 placed) := by
  obtain ⟨htoList, hle⟩ := toList_layoutFrom h
  exact ⟨htoList, (ascending_startsFrom 0 placed).1, hle (Nat.zero_le _)⟩

end Bytecode

end JvmClass
