/-
  What merging does to the size of stacks.

  * `Value.Clashes`: a value is a `long` on one path and a `double` on the other;
    `size_mergeValue` says that such values, and no others of the same size,
    merge into one that takes a slot less;
  * `clashes` counts the operands of two stacks that clash;
  * `forall₂_isWide_of_mergeState`: strict states merge only if their operands
    take the same numbers of slots, one by one;
  * `stackSize_of_mergeEntry`: stacks that merge take the same number of slots,
    and what they merge into takes one less for every clash.
-/
import JvmClass.Proofs.Flow.Join

namespace JvmClass

namespace Value

/-- A value is a `long` on one path and a `double` on the other. -/
def Clashes (left right : Value) : Prop :=
  left = long ∧ right = double ∨ left = double ∧ right = long

instance (left right : Value) : Decidable (left.Clashes right) :=
  inferInstanceAs (Decidable (left = long ∧ right = double ∨ left = double ∧ right = long))

theorem isWide_iff {value : Value} : value.isWide = true ↔ value = long ∨ value = double := by
  cases value with
  | returnAddress => simp [isWide]
  | known type => cases type <;> simp [isWide, VerificationType.isWide]

theorem size_eq_two {value : Value} (h : value.isWide = true) : value.size = 2 := if_pos h

theorem size_eq_one {value : Value} (h : value.isWide = false) : value.size = 1 := by
  rw [size, h]
  rfl

theorem clashes_iff {left right : Value} (hne : left ≠ right) :
    left.Clashes right ↔ left.isWide = true ∧ right.isWide = true := by
  rw [isWide_iff, isWide_iff]
  constructor
  · rintro (⟨rfl, rfl⟩ | ⟨rfl, rfl⟩)
    · exact ⟨.inl rfl, .inr rfl⟩
    · exact ⟨.inr rfl, .inl rfl⟩
  · rintro ⟨rfl | rfl, rfl | rfl⟩
    · exact absurd rfl hne
    · exact .inl ⟨rfl, rfl⟩
    · exact .inr ⟨rfl, rfl⟩
    · exact absurd rfl hne

theorem not_clashes_self (value : Value) : ¬ value.Clashes value := by
  rintro (⟨rfl, h⟩ | ⟨rfl, h⟩)
  · exact nomatch h
  · exact nomatch h

end Value

namespace Flow

open Value

variable {hierarchy : Hierarchy}

theorem isWide_mergeValue_of_ne {left right : Value} (hne : left ≠ right) :
    (mergeValue hierarchy left right).isWide = false := by
  unfold mergeValue
  rw [if_neg hne]
  split
  · rfl
  · rfl
  · split <;> rfl
  · rfl

/-- **Values of the same size merge into one of that size**, but for a `long`
    and a `double`, which lose a slot. -/
theorem size_mergeValue {left right : Value} (h : left.isWide = right.isWide) :
    (mergeValue hierarchy left right).size + (if left.Clashes right then 1 else 0) = left.size := by
  by_cases heq : left = right
  · subst heq
    rw [if_neg (not_clashes_self left), mergeValue_self, Nat.add_zero]
  · rw [size_eq_one (isWide_mergeValue_of_ne heq)]
    cases hwide : left.isWide with
    | true =>
      rw [if_pos ((clashes_iff heq).mpr ⟨hwide, h ▸ hwide⟩), size_eq_two hwide]
    | false =>
      have hnot : ¬ left.Clashes right := by
        intro hclash
        have hwide' := ((clashes_iff heq).mp hclash).1
        rw [hwide] at hwide'
        exact nomatch hwide'
      rw [if_neg hnot, size_eq_one hwide]

/-! ## Stacks -/

/-- How many operands of two stacks clash. -/
def clashes (existing incoming : List Value) : Nat :=
  (existing.zip incoming).countP fun (a, b) => a.Clashes b

theorem clashes_cons (a b : Value) (existing incoming : List Value) :
    clashes (a :: existing) (b :: incoming) =
      clashes existing incoming + if a.Clashes b then 1 else 0 := by
  simp [clashes, List.countP_cons]

theorem clashes_eq_zero {existing incoming : List Value} :
    clashes existing incoming = 0 ↔
      ∀ a b, (a, b) ∈ existing.zip incoming → ¬ a.Clashes b := by
  simp [clashes, List.countP_eq_zero]

theorem sizeMismatch?_eq_none {existing incoming : List Value} :
    sizeMismatch? existing incoming = none ↔
      ∀ a b, (a, b) ∈ existing.zip incoming → a.isWide = b.isWide := by
  simp [sizeMismatch?, List.find?_eq_none]

/-- **Strict states merge only if their operands take the same numbers of slots**,
    one by one. -/
theorem forall₂_isWide_of_mergeState {existing incoming merged : FlowState}
    (hstrict : existing.lenient = false)
    (h : mergeState hierarchy existing incoming = .ok merged) :
    List.Forall₂ (fun a b : Value => a.isWide = b.isWide) existing.stack incoming.stack := by
  obtain ⟨hlength, hmatch, -⟩ := mergeState_eq_ok hstrict h
  exact List.forall₂_iff_zip.mpr ⟨hlength, fun hmem => sizeMismatch?_eq_none.mp hmatch _ _ hmem⟩

/-- Operands of the same sizes take the same number of slots in all. -/
theorem slots_eq_of_isWide {existing incoming : List Value}
    (h : List.Forall₂ (fun a b : Value => a.isWide = b.isWide) existing incoming) :
    (existing.map Value.size).foldr (· + ·) 0 = (incoming.map Value.size).foldr (· + ·) 0 := by
  induction h with
  | nil => rfl
  | @cons a b existing incoming hwide _ ih =>
    have hsize : a.size = b.size := by rw [Value.size, Value.size, hwide]
    simp only [List.map_cons, List.foldr_cons, hsize, ih]

/-- Merging stacks loses a slot for every clash. -/
theorem slots_mergeValues {existing incoming : List Value}
    (h : List.Forall₂ (fun a b : Value => a.isWide = b.isWide) existing incoming) :
    ((mergeValues hierarchy existing incoming).map Value.size).foldr (· + ·) 0 +
        clashes existing incoming =
      (existing.map Value.size).foldr (· + ·) 0 := by
  induction h with
  | nil => rfl
  | @cons a b existing incoming hwide _ ih =>
    have hmerged : mergeValues hierarchy (a :: existing) (b :: incoming) =
        mergeValue hierarchy a b :: mergeValues hierarchy existing incoming := rfl
    have hsize : (mergeValue hierarchy a b).size + (if a.Clashes b then 1 else 0) = a.size :=
      size_mergeValue hwide
    rw [hmerged, clashes_cons]
    simp only [List.map_cons, List.foldr_cons]
    omega

/-- **Strict stacks that merge take the same number of slots**, and what they
    merge into takes one less for every operand that is a `long` on one path and
    a `double` on the other; so merging keeps the size exactly if there is none. -/
theorem stackSize_of_mergeEntry {existing incoming merged : FlowState} {news : Bool}
    (hstrict : existing.lenient = false)
    (h : mergeEntry hierarchy (some existing) incoming = .ok (merged, news)) :
    incoming.stackSize = existing.stackSize ∧
      merged.stackSize + clashes existing.stack incoming.stack = existing.stackSize ∧
      (merged.stackSize = existing.stackSize ↔
        ∀ a b, (a, b) ∈ existing.stack.zip incoming.stack →
          ¬ (a = .long ∧ b = .double ∨ a = .double ∧ b = .long)) := by
  obtain ⟨hnone, -⟩ | ⟨_, hsome, hmerge, -⟩ := mergeEntry_eq_ok h
  · exact nomatch hnone
  cases hsome
  have hwide := forall₂_isWide_of_mergeState hstrict hmerge
  have hlost : merged.stackSize + clashes existing.stack incoming.stack = existing.stackSize := by
    obtain ⟨-, -, rfl⟩ := mergeState_eq_ok hstrict hmerge
    exact slots_mergeValues hwide
  refine ⟨(slots_eq_of_isWide hwide).symm, hlost, ?_⟩
  calc merged.stackSize = existing.stackSize
      ↔ clashes existing.stack incoming.stack = 0 := by omega
    _ ↔ _ := clashes_eq_zero

/-- A `long` and a `double` merge, and the slot of two is lost. -/
theorem stackSize_of_mergeEntry_longDouble :
    ∃ merged news,
      mergeEntry .trivial (some ⟨[], [.long], false⟩) ⟨[], [.double], false⟩ = .ok (merged, news) ∧
        merged.stackSize ≠ (⟨[], [.long], false⟩ : FlowState).stackSize := by
  obtain ⟨⟨merged, news⟩, hmerge, -⟩ := Result.exists_ok (p := fun _ => True)
    (x := mergeEntry .trivial (some ⟨[], [.long], false⟩) ⟨[], [.double], false⟩) (by decide)
  obtain ⟨-, -, hkept⟩ := stackSize_of_mergeEntry rfl hmerge
  refine ⟨merged, news, hmerge, fun hsame => ?_⟩
  exact hkept.mp hsame .long .double (.head _) (.inl ⟨rfl, rfl⟩)

end Flow

end JvmClass
