/-
  How often a state can still change.

  * `Value.height` counts the steps from a value up to `top`, by way of a class
    and of `java/lang/Object`: at most three;
  * where no class is known, a merge that changes a value takes it a step up
    (`height_mergeValue`), and one that changes a strict state takes one of its
    values up and leaves the height of the stack (`height_of_mergeState`).
-/
import JvmClass.Proofs.Flow.Merge
import Mathlib.Algebra.Ring.Nat

namespace JvmClass

/-- The steps from a value up to `top`. -/
def Value.height : Value → Nat
  | .known .top => 0
  | .known .null => 3
  | .known (.object name) => if name = objectClass then 1 else 2
  | _ => 1

theorem Value.height_le (value : Value) : value.height ≤ 3 := by
  unfold height
  split
  · decide
  · decide
  · split <;> decide
  · decide

theorem Value.height_object (name : String) :
    (object name).height = if name = objectClass then 1 else 2 := rfl

theorem Value.height_pos {value : Value} (h : value ≠ .top) : 0 < value.height := by
  unfold height
  split
  · exact absurd rfl h
  · decide
  · split <;> decide
  · decide

/-- The steps that the values of a state can still take. -/
def FlowState.height (state : FlowState) : Nat :=
  (state.locals.map Value.height).sum + (state.stack.map Value.height).sum

theorem FlowState.height_le (state : FlowState) :
    state.height ≤ 3 * (state.locals.length + state.stack.length) := by
  have hsum (values : List Value) : (values.map Value.height).sum ≤ 3 * values.length := by
    induction values with
    | nil => exact Nat.le_refl 0
    | cons value values ih =>
      have := value.height_le
      simp only [List.map_cons, List.sum_cons, List.length_cons]
      omega
  rw [height, Nat.mul_add]
  exact Nat.add_le_add (hsum _) (hsum _)

namespace Flow

/-- **A merge that changes a value takes it a step up.** -/
theorem height_mergeValue (left right : Value) :
    mergeValue .trivial left right = left ∨
      (mergeValue .trivial left right).height < left.height := by
  have hobject (name : String) : Value.object objectClass = .object name ∨
      (Value.object objectClass).height < (Value.object name).height := by
    by_cases hname : name = objectClass
    · exact .inl (hname ▸ rfl)
    · rw [Value.height_object, Value.height_object, if_pos rfl, if_neg hname]
      exact .inr (Nat.lt_succ_self 1)
  unfold mergeValue
  split
  next => exact .inl rfl
  next =>
    split
    next name =>
      rw [Value.height_object]
      right
      split <;> decide
    next => exact .inl rfl
    next =>
      split
      next => exact hobject _
      next => exact hobject _
    next =>
      by_cases htop : left = .top
      · exact .inl htop.symm
      · exact .inr (Value.height_pos htop)

/-- A merge that changes values takes one of them up, and none down. -/
theorem height_mergeValues (existing incoming : List Value) :
    mergeValues .trivial existing incoming = existing ∨
      ((mergeValues .trivial existing incoming).map Value.height).sum <
        (existing.map Value.height).sum := by
  have hsteps := forall₂_mergeValues (R := fun a m => m = a ∨ m.height < a.height)
    (fun _ => .inl rfl) height_mergeValue existing incoming
  generalize mergeValues .trivial existing incoming = merged at hsteps ⊢
  induction hsteps with
  | nil => exact .inl rfl
  | @cons a m existing merged hstep hrest ih =>
    simp only [List.map_cons, List.sum_cons, List.cons.injEq]
    rcases hstep with rfl | hstep <;> rcases ih with rfl | ih
    · exact .inl ⟨rfl, rfl⟩
    · right; omega
    · right; omega
    · right; omega

/-- **A merge that changes a strict state takes it up**, and leaves the number
    of its operands. -/
theorem height_of_mergeState {existing incoming merged : FlowState}
    (hstrict : existing.lenient = false)
    (h : mergeState .trivial existing incoming = .ok merged) :
    merged.stack.length = existing.stack.length ∧
      (merged = existing ∨ merged.height < existing.height) := by
  obtain ⟨-, -, rfl⟩ := mergeState_eq_ok hstrict h
  refine ⟨length_mergeValues _ _, ?_⟩
  have hlocals := height_mergeValues existing.locals incoming.locals
  have hstack := height_mergeValues existing.stack incoming.stack
  unfold FlowState.height
  rcases hlocals with hlocals | hlocals <;> rcases hstack with hstack | hstack
  · exact .inl (by rw [hlocals, hstack])
  · rw [hlocals]; right; dsimp only; omega
  · rw [hstack]; right; dsimp only; omega
  · right; dsimp only; omega

end Flow

end JvmClass
