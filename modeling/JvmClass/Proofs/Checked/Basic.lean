/-
  Steps that stop at an index out of range.

  * a `Checked` step gives a result or fails, as other steps do, or it stops
    where an index is out of range; `Checked.ofExcept` is a step that uses no
    index, `Checked.found` and `Checked.require` use one;
  * `Checked.bind_ofExcept`, `Checked.foldlM_ofExcept`: steps that never stop
    are put together to steps that never stop;
  * `Checked.orThrow` is a step of writing that fails for a given cause where a
    checked step stops.
-/
import JvmClass.Linkage.Builder

namespace JvmClass

/-- A step that gives a result or fails, or stops with `none` where an index is
    out of range. -/
abbrev Checked (ε α : Type) := ExceptT ε Option α

namespace Checked

variable {ε α β σ : Type}

/-- A step that uses no index. -/
def ofExcept (result : Except ε α) : Checked ε α := ExceptT.mk (some result)

/-- What an index finds; stop if it finds nothing. -/
def found : Option α → Checked ε α
  | some a => pure a
  | none => ExceptT.mk none

/-- Stop unless a condition holds, as that an index is in range. -/
def require (inRange : Prop) [Decidable inRange] : Checked ε Unit :=
  if inRange then pure () else ExceptT.mk none

theorem require_of {inRange : Prop} [Decidable inRange] (h : inRange) :
    (require inRange : Checked ε Unit) = pure () := if_pos h

/-- A step after one that uses no index, and uses none either where that one
    succeeds. -/
theorem bind_ofExcept {x : Except ε α} {f : α → Checked ε β} {g : α → Except ε β}
    (h : ∀ a, x = .ok a → f a = ofExcept (g a)) : ofExcept x >>= f = ofExcept (x >>= g) := by
  cases x with
  | error e => rfl
  | ok a => exact h a rfl

theorem guard_ofExcept {c : Prop} [Decidable c] {e : ε} {k : β → Checked ε α}
    {k' : β → Except ε α} {x : Checked ε α} {y : Except ε α} (h : x = ofExcept y) :
    (if c then MonadExcept.throw e >>= k else x) =
      ofExcept (if c then MonadExcept.throw e >>= k' else y) := by
  split
  next => rfl
  next => exact h

/-- A loop whose steps use no index as long as an invariant holds. -/
theorem foldlM_ofExcept {I : σ → Prop} {f : σ → α → Checked ε σ} {g : σ → α → Except ε σ}
    {items : List α} (hstep : ∀ s, ∀ a ∈ items, I s → f s a = ofExcept (g s a))
    (hkeeps : ∀ s, ∀ a ∈ items, I s → ∀ t, g s a = .ok t → I t) {s : σ} (hs : I s) :
    items.foldlM f s = ofExcept (items.foldlM g s) := by
  induction items generalizing s with
  | nil => rfl
  | cons a items ih =>
    rw [List.foldlM_cons, List.foldlM_cons, hstep s a (.head _) hs]
    refine bind_ofExcept fun t ht => ?_
    exact ih (fun s b hb => hstep s b (.tail _ hb)) (fun s b hb => hkeeps s b (.tail _ hb))
      (hkeeps s a (.head _) hs t ht)

/-- A step of writing that fails for the cause `fault` where a checked step
    stops. -/
def orThrow (fault : Invalid) (step : Checked Invalid α) : Linking α :=
  match step.run with
  | some result => Linking.ofExcept result
  | none => throw fault

@[simp] theorem orThrow_ofExcept (fault : Invalid) (result : Except Invalid α) :
    orThrow fault (ofExcept result) = liftM result := rfl

end Checked

namespace Linking

variable {α β : Type}

/-- Two steps after one that agree on what it gives. -/
theorem bind_congr {x : Linking α} {f g : α → Linking β} {s : Linker}
    (h : ∀ a t, x s = .ok a t → f a t = g a t) : (x >>= f) s = (x >>= g) s := by
  simp only [Bind.bind, EStateM.bind]
  split
  next a t hx => exact h a t hx
  next => rfl

end Linking

end JvmClass
