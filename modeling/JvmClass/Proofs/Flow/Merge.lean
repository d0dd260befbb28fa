/-
  Merging states.

  * `forall₂_mergeValues`: merging keeps what merging two values keeps;
  * `mergeState_of_lenient`: lenient states merge whatever their stacks are;
  * `mergeState_eq_ok`: strict states merge slot by slot, and only if their
    stacks have the same shape;
  * `stackSize_le_of_mergeState`: merging does not make a stack larger.
-/
import JvmClass.Flow.Merge
import JvmClass.Proofs.Result

namespace JvmClass

theorem Value.size_pos (value : Value) : 0 < value.size := by
  unfold size
  split <;> decide

theorem FlowState.length_le_stackSize (state : FlowState) :
    state.stack.length ≤ state.stackSize := by
  unfold stackSize
  induction state.stack with
  | nil => exact Nat.le_refl 0
  | cons value stack ih =>
    have := value.size_pos
    simp only [List.length_cons, List.map_cons, List.foldr_cons]
    omega

namespace Flow

variable {hierarchy : Hierarchy}

/-- Only equal values of two slots merge into one of two slots. -/
theorem isWide_of_mergeValue {left right : Value}
    (h : (mergeValue hierarchy left right).isWide = true) : left.isWide = true := by
  unfold mergeValue at h
  split at h
  next => exact h
  next =>
    split at h
    · exact nomatch h
    · exact nomatch h
    · split at h <;> exact nomatch h
    · exact nomatch h

theorem size_mergeValue_le (left right : Value) :
    (mergeValue hierarchy left right).size ≤ left.size := by
  unfold Value.size
  split
  next hwide => exact Nat.le_of_eq (if_pos (isWide_of_mergeValue hwide)).symm
  next => split <;> decide

/-- What merging two values keeps, and values that are not merged have, holds
    slot by slot of merged lists. -/
theorem forall₂_mergeValues {R : Value → Value → Prop} (hself : ∀ a, R a a)
    (hmerge : ∀ a b, R a (mergeValue hierarchy a b)) (existing incoming : List Value) :
    List.Forall₂ R existing (mergeValues hierarchy existing incoming) := by
  induction existing generalizing incoming with
  | nil => simp [mergeValues]
  | cons a existing ih =>
    cases incoming with
    | nil =>
      simp only [mergeValues, List.zipWith_nil_right, List.length_nil, List.drop_zero,
        List.nil_append]
      exact List.forall₂_same.mpr fun a _ => hself a
    | cons b incoming => exact .cons (hmerge a b) (ih incoming)

theorem length_mergeValues (existing incoming : List Value) :
    (mergeValues hierarchy existing incoming).length = existing.length :=
  (forall₂_mergeValues (R := fun _ _ => True) (fun _ => trivial) (fun _ _ => trivial) existing
    incoming).length_eq.symm

/-- What merging two values keeps of the first one, merging lists keeps. -/
theorem forall_mem_mergeValues {V : Value → Prop}
    (hmerge : ∀ a b, V a → V (mergeValue hierarchy a b)) {existing : List Value}
    (h : ∀ v ∈ existing, V v) (incoming : List Value) :
    ∀ v ∈ mergeValues hierarchy existing incoming, V v := by
  intro v hv
  have hkept : List.Forall₂ (fun a m => V a → V m) existing
      (mergeValues hierarchy existing incoming) :=
    forall₂_mergeValues (fun _ h => h) hmerge existing incoming
  obtain ⟨i, hi, rfl⟩ := List.getElem_of_mem hv
  have hlt : i < existing.length := hkept.length_eq ▸ hi
  exact (List.forall₂_iff_get.mp hkept).2 i hlt hi (h _ (List.getElem_mem hlt))

theorem stackSlots_le {stack smaller : List Value}
    (h : List.Forall₂ (fun a m => m.size ≤ a.size) stack smaller) :
    (smaller.map Value.size).foldr (· + ·) 0 ≤ (stack.map Value.size).foldr (· + ·) 0 := by
  induction h with
  | nil => exact Nat.le_refl 0
  | cons hsize _ ih => exact Nat.add_le_add hsize ih

/-- **Lenient states always merge**: where the stacks differ in height, the one
    that takes more slots is kept. -/
theorem mergeState_of_lenient {existing incoming : FlowState} (h : existing.lenient = true) :
    mergeState hierarchy existing incoming =
      .ok (if existing.stack.length = incoming.stack.length then
          { existing with
            locals := mergeValues hierarchy existing.locals incoming.locals
            stack := mergeValues hierarchy existing.stack incoming.stack }
        else if incoming.stackSize > existing.stackSize then
          { existing with stack := incoming.stack }
        else existing) := by
  unfold mergeState mergeStacks
  rw [if_pos h]
  split
  next => rfl
  next => split <;> rfl

/-- **Strict states merge slot by slot**, and only if their stacks have the
    same shape. -/
theorem mergeState_eq_ok {existing incoming merged : FlowState} (hstrict : existing.lenient = false)
    (h : mergeState hierarchy existing incoming = .ok merged) :
    existing.stack.length = incoming.stack.length ∧
      sizeMismatch? existing.stack incoming.stack = none ∧
      merged = { existing with
        locals := mergeValues hierarchy existing.locals incoming.locals
        stack := mergeValues hierarchy existing.stack incoming.stack } := by
  unfold mergeState at h
  rw [hstrict] at h
  split at h
  next hlength =>
    unfold mergeStacks at h
    rw [hstrict] at h
    split at h
    next => exact nomatch h
    next hmatch =>
      cases h
      exact ⟨hlength, hmatch, by rw [hstrict]⟩
  next => exact nomatch h

/-- Merging does not make a stack larger. -/
theorem stackSize_le_of_mergeState {existing incoming merged : FlowState}
    (hstrict : existing.lenient = false)
    (h : mergeState hierarchy existing incoming = .ok merged) :
    merged.stackSize ≤ existing.stackSize := by
  obtain ⟨-, -, rfl⟩ := mergeState_eq_ok hstrict h
  exact stackSlots_le (forall₂_mergeValues (R := fun a m => m.size ≤ a.size)
    (fun _ => Nat.le_refl _) size_mergeValue_le existing.stack incoming.stack)

/-- An entry is the state that came first or what it was merged into. -/
theorem mergeEntry_eq_ok {entry : Option FlowState} {incoming state : FlowState} {news : Bool}
    (h : mergeEntry hierarchy entry incoming = .ok (state, news)) :
    (entry = none ∧ state = incoming ∧ news = true) ∨
      ∃ existing, entry = some existing ∧ mergeState hierarchy existing incoming = .ok state ∧
        news = (state != existing) := by
  cases entry with
  | none => cases h; exact .inl ⟨rfl, rfl, rfl⟩
  | some existing =>
    obtain ⟨merged, hmerged, hdone⟩ := Result.bind_eq_ok.mp h
    cases hdone
    exact .inr ⟨existing, rfl, hmerged, rfl⟩

end Flow

end JvmClass
